import LoadableSched.Machine
import LoadableSched.Session.Basic

/-!
A host with everything that uses its kernel: sessions, extensions that were loaded one by one, the
holdings of an attachment manager of their own, and a workload on the scheduling class.
-/

namespace LoadableSched

structure Host where
  kernel : Kernel
  settings : HostSettings
  maps : TaskMaps
  workload : Option Workload
  /-- The sessions in the order they were opened; a dropped one leaves its place empty. -/
  sessions : List (Option Session)
  extensions : List Extension
  holdings : Holdings
  /-- The holdings that were handed out, to be referred to by their place. -/
  handed : List Holding

namespace Host

def new (cpus : Nat) (features : Features) (interfaces : List IfIndex) (files : FileTree)
    (settings : HostSettings) : Host :=
  let kernel := (Kernel.new cpus features).addInterfaces interfaces
  let (maps, memory) := kernel.memory.newTaskMaps
  { kernel := { kernel.setMemory memory with files }
    settings
    maps
    workload := none
    sessions := []
    extensions := []
    holdings := .empty
    handed := [] }

def onKernel {α : Type} (h : Host) (op : Kernel → α × Kernel) : α × Host :=
  let (value, kernel) := op h.kernel
  (value, { h with kernel })

def onMachine {α : Type} (h : Host) (op : Machine → α × Machine) : α × Host :=
  let (value, m) := op ⟨h.kernel.sched, h.maps, h.workload⟩
  (value, { h with kernel := { h.kernel with sched := m.sched }, workload := m.workload })

def build (h : Host) (r : Recipe) : Policy Memory × Host :=
  h.onKernel fun k =>
    let (policy, memory) := r.build h.maps k.memory
    (policy, k.setMemory memory)

def hand (h : Host) (holding : Holding) : Nat × Host :=
  (h.handed.length, { h with handed := h.handed ++ [holding] })

/-! Sessions. -/

def newSession (h : Host) (id : String) (t : Tunables) : Session := .new id h.settings t

def openSession (h : Host) (id : String) (t : Tunables) : Nat × Host :=
  (h.sessions.length, { h with sessions := h.sessions ++ [some (h.newSession id t)] })

def session? (h : Host) (i : Nat) : Option Session := h.sessions[i]?.join

def setSession (h : Host) (i : Nat) (s : Option Session) : Host :=
  { h with sessions := h.sessions.set i s }

def onSession {α : Type} (h : Host) (s : Session) (op : Session → Kernel → Outcome α) :
    Except Failure α × Session × Host :=
  let (value, s, kernel) := op s h.kernel
  (value, s, { h with kernel })

def dropSession (h : Host) (i : Nat) : Bool × Host :=
  match h.session? i with
  | none => (false, h)
  | some s =>
    let (_, _, h) := h.onSession s Session.close
    (true, h.setSession i none)

/-! Extensions. -/

def load (h : Host) (image : Image) : Except Failure Nat × Host :=
  match Extension.load h.kernel image with
  | (.error failure, kernel) => (.error failure, { h with kernel })
  | (.ok e, kernel) =>
    (.ok h.extensions.length, { h with kernel, extensions := h.extensions ++ [e] })

def closeExtension (h : Host) (i : Nat) (e : Extension) : Except Failure Unit × Host :=
  let (outcome, e, kernel) := e.close h.kernel
  (outcome, { h with kernel, extensions := h.extensions.set i e })

/-! The attachment manager. -/

def attach {α : Type} (h : Host) (op : Holdings → Kernel → Attached α) : Except Failure α × Host :=
  let (value, holdings, kernel) := op h.holdings h.kernel
  (value, { h with holdings, kernel })

def register (h : Host) (holding : Holding) : Host :=
  { h with holdings := h.holdings.register holding }

def take (h : Host) (holding : Holding) : Except Failure Host :=
  match h.holdings.take holding with
  | .error failure => .error failure
  | .ok holdings => .ok { h with holdings }

def detach (h : Host) (holding : Holding) : Except Failure Host :=
  match h.holdings.detach h.kernel holding with
  | .error failure => .error failure
  | .ok (holdings, kernel) => .ok { h with holdings, kernel }

def releaseStage (h : Host) (stage : Stage) : Teardown × Host :=
  let (holdings, report, kernel) := h.holdings.releaseStage h.kernel stage .empty
  (report, { h with holdings, kernel })

def releaseAll (h : Host) : Teardown × Host :=
  let (holdings, report, kernel) := h.holdings.releaseAll h.kernel
  (report, { h with holdings, kernel })

def releaseMerged (h : Host) (report : Teardown) : List Stage → Teardown × Host
  | [] => (report, h)
  | stage :: rest =>
    let (later, h) := h.releaseStage stage
    h.releaseMerged (report.merge later) rest

end Host

end LoadableSched
