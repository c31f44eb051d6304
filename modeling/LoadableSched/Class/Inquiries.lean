import LoadableSched.Class.Requests
import LoadableSched.Class.Run

/-!
The callbacks that an operation makes, in order: what each asked of the class while it ran, every reason
it gave to remove the policy, and what the class made of it. They are read off the operations themselves.
-/

namespace LoadableSched

inductive Matter where
  | init
  | selectCpu (task : Task) (flags : UInt64)
  | enqueue (pid : Pid) (task : Task) (cpu : CpuId) (flags : UInt64)
  | dispatch (cpu : CpuId) (previous : Option Task)
  | running (cpu : CpuId) (task : Task)
  | stopping (cpu : CpuId) (task : Task) (runnable : Bool)
  | enable (pid : Pid) (task : Task)
deriving DecidableEq, Repr

inductive Answer where
  | nothing
  | code (code : Int)
  | cpu (cpu : CpuId)
  | record (task : Task)
deriving DecidableEq, Repr

def Matter.cpu : Matter → CpuId
  | .init => 0
  | .selectCpu task _ => task.lastCpu
  | .enqueue _ _ cpu _ => cpu
  | .dispatch cpu _ => cpu
  | .running cpu _ => cpu
  | .stopping cpu _ _ => cpu
  | .enable _ task => task.lastCpu

variable {ω : Type}

def Policy.answer (policy : Policy ω) : Matter → Callback ω Answer
  | .init => .code <$> policy.init
  | .selectCpu task flags => .cpu <$> policy.selectCpu task task.lastCpu flags
  | .enqueue _ task _ flags => (fun _ => .nothing) <$> policy.enqueue task flags
  | .dispatch cpu previous => (fun _ => .nothing) <$> policy.dispatch cpu previous
  | .running _ task => (fun _ => .nothing) <$> policy.running task
  | .stopping _ task runnable => (fun _ => .nothing) <$> policy.stopping task runnable
  | .enable _ task => .record <$> policy.enable task

namespace SchedClass

def failure? {α : Type} : Except ClassError α → Option ClassError
  | .error e => some e
  | .ok _ => none

def fault? (c : SchedClass ω) (cpu : CpuId) (earlier : List Pid) (p : Placement) :
    Option ClassError :=
  if !c.tasks.contains p.pid then some (.unknownTask p.pid)
  else if earlier.contains p.pid || c.queues.contains p.pid then some (.doubleDispatch p.pid)
  else if p.queue = localQueue ∧ c.cpus ≤ cpu then some (.invalidCpu cpu)
  else none

def faults (c : SchedClass ω) (cpu : CpuId) (earlier : List Pid) : List Placement → List ClassError
  | [] => []
  | p :: rest => (c.fault? cpu earlier p).toList ++ c.faults cpu (earlier ++ [p.pid]) rest

/-- A callback of the policy in place, with the class as it is made. -/
structure Inquiry (ω : Type) where
  before : SchedClass ω
  policy : Policy ω
  matter : Matter

namespace Inquiry

variable (i : Inquiry ω)

def ran : Answer × Progress ω := i.before.invoke i.matter.cpu (i.policy.answer i.matter)

def called : SchedClass ω := i.before.resume i.ran.2

def requests : List (Queues × Request) :=
  (i.policy.answer i.matter).requests i.matter.cpu i.before.clock
    ⟨i.before.queues, [], none, i.before.memory⟩

def creations : List (Queues × Int64) :=
  (i.policy.answer i.matter).creations i.matter.cpu i.before.clock
    ⟨i.before.queues, [], none, i.before.memory⟩

def dispatches : List Placement := i.requests.filterMap (·.2.placement?)

/-- The processor whose queue a placement on the local queue is for: the one that the policy chose, or
else the one that the callback runs for. -/
def localCpu : CpuId :=
  match i.ran.1 with
  | .cpu cpu => cpu
  | _ => i.matter.cpu

def misuses : List ClassError :=
  i.requests.filterMap fun (queues, request) => queues.misuse? i.matter.cpu request

def refusals : List ClassError :=
  match i.ran.1 with
  | .cpu cpu => if i.before.cpus ≤ cpu then [.invalidCpu cpu] else []
  | .code code => if code ≠ 0 then [.initFailed code] else []
  | _ => []

/-- What is wrong with the placements if the local queue is that of a given processor. Those of a
callback that brings a task under the policy are not looked at. -/
def faultsOn (cpu : CpuId) : List ClassError :=
  match i.matter with
  | .enable _ _ => []
  | _ => i.called.faults cpu [] i.dispatches

def omissions : List ClassError :=
  match i.matter with
  | .enqueue pid _ _ _ => if i.dispatches.any (·.pid = pid) then [] else [.notQueued pid]
  | _ => []

def reasonsOn (cpu : CpuId) : List ClassError :=
  i.misuses ++ i.refusals ++ i.faultsOn cpu ++ i.omissions

/-- The reasons that the callback gives to remove the policy, the weightiest first. -/
def reasons : List ClassError := i.reasonsOn i.localCpu

def heed : Option ClassError × SchedClass ω :=
  match i.matter with
  | .init =>
    let (done, c) := i.before.introduce i.policy
    (failure? done, c)
  | .selectCpu task flags =>
    let (chosen, c) := i.before.chooseCpu i.policy task flags
    (failure? chosen, c)
  | .enqueue pid task cpu flags =>
    match i.before.callAndPlace cpu (i.policy.enqueue task flags) with
    | (.error e, c) => (some e, c)
    | (.ok placed, c) => (if placed.contains pid then none else some (.notQueued pid), c)
  | .dispatch cpu previous =>
    let (placed, c) := i.before.callAndPlace cpu (i.policy.dispatch cpu previous)
    (failure? placed, c)
  | .running cpu task =>
    let (placed, c) := i.before.callAndPlace cpu (i.policy.running task)
    (failure? placed, c)
  | .stopping cpu task runnable =>
    let (placed, c) := i.before.callAndPlace cpu (i.policy.stopping task runnable)
    (failure? placed, c)
  | .enable pid task =>
    match i.before.call task.lastCpu (i.policy.enable task) with
    | (.error e, c) => (some e, c)
    | (.ok (task, _), c) => (none, c.mapTask pid fun _ => task)

def failure : Option ClassError := i.heed.1

def reached : SchedClass ω := i.heed.2

/-- The class once it settled the callback: a policy in which something went wrong is removed, and one
that was just put in place leaves no trace of why. -/
def after : SchedClass ω :=
  match i.heed with
  | (none, c) => c
  | (some reason, c) =>
    if i.matter = .init then requeueOrphans { c with policy := none } else c.abort reason

end Inquiry

def enableInquiries (c : SchedClass ω) (pid : Pid) : List (Inquiry ω) :=
  match c.policy, c.task? pid with
  | some policy, some task => [⟨c, policy, .enable pid task⟩]
  | _, _ => []

def enableAllInquiries (c : SchedClass ω) : List Pid → List (Inquiry ω)
  | [] => []
  | pid :: rest => c.enableInquiries pid ++ (c.enable pid).enableAllInquiries rest

def installInquiries (c : SchedClass ω) (policy : Policy ω) : List (Inquiry ω) :=
  match c.policy with
  | some _ => []
  | none =>
    let c := { c with policy := some policy }
    ⟨c, policy, .init⟩ ::
      match c.introduce policy with
      | (.error _, _) => []
      | (.ok (), c) => c.enableAllInquiries c.tasks.keys

def addTaskInquiries (c : SchedClass ω) (task : Task) : List (Inquiry ω) :=
  if c.tasks.contains task.pid then [] else (c.register task).enableInquiries task.pid

def enqueueWithInquiries (c : SchedClass ω) (policy : Policy ω) (pid : Pid) (cpu : CpuId)
    (flags : UInt64) : List (Inquiry ω) :=
  match c.task? pid with
  | none => []
  | some task => [⟨c, policy, .enqueue pid task cpu flags⟩]

def wakeInquiries (c : SchedClass ω) (pid : Pid) (flags : UInt64) : List (Inquiry ω) :=
  match c.tasks.get? pid with
  | none => []
  | some slot =>
    if slot.state ≠ .sleeping then []
    else
      let c := c.setState pid .queued
      match c.policy with
      | none => []
      | some policy =>
        ⟨c, policy, .selectCpu slot.task flags⟩ ::
          match c.chooseCpu policy slot.task flags with
          | (.error _, _) => []
          | (.ok (cpu, placed), c) =>
            let c := c.mapTask pid fun task => { task with lastCpu := cpu }
            if placed.contains pid then [] else c.enqueueWithInquiries policy pid cpu 0

def enqueueInquiries (c : SchedClass ω) (pid : Pid) (flags : UInt64) : List (Inquiry ω) :=
  match c.tasks.get? pid with
  | none => []
  | some slot =>
    if slot.state ≠ .sleeping then []
    else
      let c := c.setState pid .queued
      match c.policy with
      | none => []
      | some policy => c.enqueueWithInquiries policy pid slot.task.lastCpu flags

def refillInquiries (c : SchedClass ω) (cpu : CpuId) : List (Inquiry ω) :=
  match c.policy with
  | none => []
  | some policy =>
    if c.localLength cpu ≠ 0 then [] else [⟨c, policy, .dispatch cpu (c.previousWaiting cpu)⟩]

def startInquiries (c : SchedClass ω) (cpu : CpuId) (task : Task) : List (Inquiry ω) :=
  match c.policy with
  | none => []
  | some policy => [⟨c, policy, .running cpu task⟩]

def runInquiries (c : SchedClass ω) (cpu : CpuId) (pid : Pid) : List (Inquiry ω) :=
  let c := c.occupy cpu pid
  match c.tasks.get? pid with
  | none => []
  | some slot => (c.engage cpu pid).startInquiries cpu (slot.task.startOn cpu)

def pickNextInquiries (c : SchedClass ω) (cpu : CpuId) : List (Inquiry ω) :=
  if c.cpus ≤ cpu then []
  else
    match c.current? cpu with
    | some _ => []
    | none =>
      c.refillInquiries cpu ++
        match (c.refill cpu).takeNext cpu with
        | (.ok (some pid), c) => c.runInquiries cpu pid
        | _ => []

def settleStoppedInquiries (c : SchedClass ω) (cpu : CpuId) (pid : Pid) (runnable : Bool) :
    List (Inquiry ω) :=
  if c.state? pid ≠ some (.running cpu) then []
  else if !runnable then []
  else
    let c := c.setState pid .queued
    match c.policy with
    | none => []
    | some policy => c.enqueueWithInquiries policy pid cpu 0

def haltInquiries (c : SchedClass ω) (cpu : CpuId) (task : Task) (runnable : Bool) :
    List (Inquiry ω) :=
  match c.policy with
  | none => []
  | some policy => [⟨c, policy, .stopping cpu task runnable⟩]

def stopInquiries (c : SchedClass ω) (cpu : CpuId) (ran : Nanos) (runnable : Bool) :
    List (Inquiry ω) :=
  if c.cpus ≤ cpu then []
  else
    match c.current? cpu with
    | none => []
    | some pid =>
      let c := c.vacate cpu pid
      match c.tasks.get? pid with
      | none => []
      | some slot =>
        let task := slot.task.charge ran
        let c := c.mapTask pid fun _ => task
        c.haltInquiries cpu task runnable ++
          (c.halt cpu task runnable).settleStoppedInquiries cpu pid runnable

def inquiries (c : SchedClass ω) : Operation ω → List (Inquiry ω)
  | .install policy => c.installInquiries policy
  | .addTask task => c.addTaskInquiries task
  | .wake pid flags => c.wakeInquiries pid flags
  | .enqueue pid flags => c.enqueueInquiries pid flags
  | .pickNext cpu => c.pickNextInquiries cpu
  | .stop cpu ran runnable => c.stopInquiries cpu ran runnable
  | .uninstall | .removeTask _ | .advanceClock _ | .setMemory _ => []

def allInquiries (c : SchedClass ω) : List (Operation ω) → List (Inquiry ω)
  | [] => []
  | op :: rest => c.inquiries op ++ (c.step op).allInquiries rest

end SchedClass

end LoadableSched
