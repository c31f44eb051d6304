import LoadableSched.Counters.Report
import LoadableSched.Session.Attach

/-!
A session: the life of one extension on the host, from loading over attaching and running to closing.
-/

namespace LoadableSched

inductive SessionState where
  | unloaded
  | loaded
  | attached
  | running
  | closed
deriving DecidableEq, Repr

namespace SessionState

def all : List SessionState := [unloaded, loaded, attached, running, closed]

def name : SessionState → String
  | unloaded => "unloaded"
  | loaded => "loaded"
  | attached => "attached"
  | running => "running"
  | closed => "closed"

def canAttach (s : SessionState) : Bool := s = .loaded || s = .attached

def isClosed (s : SessionState) : Bool := s = .closed

end SessionState

structure Session where
  id : String
  state : SessionState
  host : HostSettings
  tunables : Tunables
  extension : Option Extension
  holdings : Holdings
  scheduler : Option (String × Nat)

abbrev Outcome (α : Type) := Except Failure α × Session × Kernel

namespace Session

def new (id : String) (host : HostSettings) (tunables : Tunables) : Session where
  id
  state := .unloaded
  host
  tunables
  extension := none
  holdings := .empty
  scheduler := none

def wrongState (s : Session) (action : String) : Failure :=
  .illegalState ("cannot " ++ action ++ " in state " ++ s.state.name)

def liveExtension (s : Session) : Except Failure Extension :=
  match s.extension with
  | some e => .ok e
  | none => .error (.illegalState ("session " ++ s.id ++ " has no extension"))

def counters? (s : Session) (k : Kernel) : Option Counters :=
  s.scheduler.map fun (_, counters) => k.memory.countersAt counters

/-! Closing. -/

def closeExtension (s : Session) (k : Kernel) (r : Teardown) : Session × Teardown × Kernel :=
  match s.extension with
  | none => (s, r, k)
  | some e =>
    let s := { s with extension := none }
    match e.close k with
    | (.ok (), _, k) => (s, r, k)
    | (.error failure, _, k) => (s, { r with failures := r.failures ++ [failure] }, k)

def stagesBeforeExtension : List Stage := [.structOps, .links, .network, .trafficControl, .maps]

def teardown (s : Session) (k : Kernel) : Teardown × Session × Kernel :=
  let (holdings, r, k) := s.holdings.releaseStages k .empty stagesBeforeExtension
  let (s, r, k) := { s with holdings }.closeExtension k r
  let (holdings, r, k) := s.holdings.releaseStage k .descriptors r
  (r, { s with holdings }, k)

/-- Closes the session and reports all failures together. A closed one stays as it is. -/
def close (s : Session) (k : Kernel) : Outcome Unit :=
  if s.state.isClosed then (.ok (), s, k)
  else
    let (r, s, k) := { s with state := .closed, scheduler := none }.teardown k
    (r.result, s, k)

def closeAfter {α : Type} (s : Session) (k : Kernel) (failure : Failure) : Outcome α :=
  let (_, s, k) := s.close k
  (.error failure, s, k)

/-- Closes a session whose work is over. A failure of the work counts before one of closing. -/
def finish {α : Type} (result : Except Failure α) (s : Session) (k : Kernel) : Outcome α :=
  let (closed, s, k) := s.close k
  match result, closed with
  | .error failure, _ => (.error failure, s, k)
  | .ok _, .error failure => (.error failure, s, k)
  | .ok value, .ok () => (.ok value, s, k)

def within {α : Type} (s : Session) (k : Kernel) (work : Session → Kernel → Outcome α) : Outcome α :=
  let (result, s, k) := work s k
  s.finish result k

/-! Loading and looking up. -/

def load (s : Session) (k : Kernel) (image : Image) : Outcome Unit :=
  if s.state ≠ .unloaded then (.error (s.wrongState "load"), s, k)
  else
    match Extension.load k image with
    | (.ok e, k) => (.ok (), { s with extension := some e, state := .loaded }, k)
    | (.error failure, k) => s.closeAfter k failure

def program (s : Session) (k : Kernel) (name : String) : Except Failure ProgramHandle := do
  (← s.liveExtension).findProgram k name

/-- Opens a map; however often it is looked up, it is held once. -/
def map (s : Session) (k : Kernel) (κ ν : Type) [Word κ] [Word ν] (name : String) (kind : MapKind) :
    Except Failure MapHandle × Session :=
  match s.liveExtension.bind fun e => e.findMap k κ ν name kind with
  | .error failure => (.error failure, s)
  | .ok handle =>
    let holding := Holding.map handle.id handle.name
    let holdings :=
      if s.holdings.contains holding then s.holdings else s.holdings.register holding
    (.ok handle, { s with holdings })

def taskMap (s : Session) (k : Kernel) (name : String) : Except Failure (Option StoreId) × Session :=
  match s.liveExtension with
  | .error failure => (.error failure, s)
  | .ok e =>
    if (e.manifest.map? name).isNone then (.ok none, s)
    else
      match s.map k UInt32 UInt64 name .lruHash with
      | (.error failure, s) => (.error failure, s)
      | (.ok handle, s) => (.ok (some handle.store), s)

/-! Attaching. -/

/-- Enters what an attachment did: success attaches the session, a failure closes it. -/
def attached {α : Type} (s : Session) (result : Attached α) : Outcome α :=
  let (value, holdings, k) := result
  let s := { s with holdings }
  match value with
  | .ok value => (.ok value, { s with state := .attached }, k)
  | .error failure => s.closeAfter k failure

def attachWith {α : Type} (s : Session) (k : Kernel)
    (work : Extension → Holdings → Kernel → Attached α) : Outcome α :=
  if !s.state.canAttach then (.error (s.wrongState "attach"), s, k)
  else
    match s.liveExtension with
    | .error failure => s.closeAfter k failure
    | .ok e => s.attached (work e s.holdings k)

def attachProgramWith {α : Type} (s : Session) (k : Kernel) (name : String)
    (work : ProgramHandle → Holdings → Kernel → Attached α) : Outcome α :=
  s.attachWith k fun e holdings k =>
    match e.findProgram k name with
    | .error failure => (.error failure, holdings, k)
    | .ok p => work p holdings k

def attach (s : Session) (k : Kernel) (name : String) : Outcome Holding :=
  s.attachProgramWith k name fun p holdings k => Attach.program holdings k p

def autoAttach (s : Session) (k : Kernel) : Outcome (List Holding) := s.attachWith k Attach.marked

def attachLsm (s : Session) (k : Kernel) : Outcome (List Holding) := s.attachWith k Attach.allLsm

def attachCgroup (s : Session) (k : Kernel) (name cgroup : String) : Outcome Holding :=
  s.attachProgramWith k name fun p holdings k => Attach.cgroup s.host holdings k p cgroup

def attachXdp (s : Session) (k : Kernel) (name : String) (ifindexes : List IfIndex) :
    Outcome (List Holding) :=
  s.attachProgramWith k name fun p holdings k => Attach.xdp holdings k p ifindexes

def attachFilter (s : Session) (k : Kernel) (name : String) (side : Side) : Outcome Holding :=
  s.attachProgramWith k name fun p holdings k => Attach.filter holdings k p side

def schedulerMaps (s : Session) (k : Kernel) : Except Failure TaskMaps × Session × Kernel :=
  let (own, memory) := k.memory.newTaskMaps
  let k := k.setMemory memory
  match s.taskMap k Shipped.enqueueTimeMap with
  | (.error failure, s) => (.error failure, s, k)
  | (.ok enqueueTime, s) =>
    match s.taskMap k Shipped.sliceUsageMap with
    | (.error failure, s) => (.error failure, s, k)
    | (.ok sliceUsage, s) =>
      (.ok ⟨enqueueTime.getD own.enqueueTime, sliceUsage.getD own.sliceUsage⟩, s, k)

def attachScheduler (s : Session) (k : Kernel) (shipped : Shipped) : Outcome Holding :=
  if !s.state.canAttach then (.error (s.wrongState "attach a scheduler"), s, k)
  else if s.scheduler.isSome then
    (.error (.illegalState ("session " ++ s.id ++ " already has a scheduler")), s, k)
  else
    match s.schedulerMaps k with
    | (.error failure, s, k) => (.error failure, s, k)
    | (.ok maps, s, k) =>
      let (policy, memory) := shipped.build s.tunables maps k.memory
      let (unused, memory) := memory.newCounters
      let k := k.setMemory memory
      match s.attachWith k fun e holdings k =>
        Attach.structOps e holdings k shipped.opsMap policy with
      | (.error failure, s, k) => (.error failure, s, k)
      | (.ok holding, s, k) =>
        (.ok holding, { s with scheduler := some (policy.name, policy.counters.getD unused) }, k)

def detach (s : Session) (k : Kernel) (h : Holding) : Outcome Unit :=
  if s.state.isClosed then
    (.error (.illegalState
      ("session " ++ s.id ++ " is closed; " ++ h.text ++ " was already released")), s, k)
  else
    match s.holdings.detach k h with
    | .error failure => (.error failure, s, k)
    | .ok (holdings, k) =>
      let scheduler :=
        match h with
        | .structOps .. => none
        | _ => s.scheduler
      (.ok (), { s with holdings, scheduler }, k)

/-! Running. -/

def reportLayout (s : Session) : ReportLayout :=
  if s.tunables.structured then .structured else .prose

def report (s : Session) (k : Kernel) : Option String × Kernel :=
  match s.scheduler with
  | none => (none, k)
  | some (name, counters) =>
    if s.tunables.verbose then
      let (taken, rest) := Report.take s.reportLayout name (k.memory.countersAt counters)
      (taken.map (·.2), k.setMemory (k.memory.setCounters counters rest))
    else (none, k)

def start (s : Session) : Except Failure Session :=
  if s.state ≠ .attached then .error (s.wrongState "run") else .ok { s with state := .running }

def run (s : Session) (k : Kernel) : Outcome Unit :=
  match s.start with
  | .error failure => (.error failure, s, k)
  | .ok s => s.close k

end Session

end LoadableSched
