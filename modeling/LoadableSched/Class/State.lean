import LoadableSched.Policy.Basic

/-!
The state of the scheduling class, and the steps that all its operations are made of: running a
callback, making the placements that it asked for, and removing a policy that misbehaved.
-/

namespace LoadableSched

structure Slot where
  task : Task
  state : RunState
deriving DecidableEq, Repr

structure Exit where
  policy : String
  reason : ClassError
deriving DecidableEq, Repr

/-- The scheduling class; `ω` is the memory that policies share with the outside. -/
structure SchedClass (ω : Type) where
  policy : Option (Policy ω)
  queues : Queues
  tasks : Table Pid Slot
  current : List (Option Pid)
  /-- The task that each processor ran last. -/
  previous : List (Option Pid)
  exit : Option Exit
  clock : Nanos
  memory : ω

namespace SchedClass

variable {ω : Type}

def new (cpus : Nat) (memory : ω) : SchedClass ω :=
  let cpus := max 1 (min cpus maxCpus)
  { policy := none
    queues := Queues.new cpus
    tasks := ∅
    current := List.replicate cpus none
    previous := List.replicate cpus none
    exit := none
    clock := 0
    memory }

def cpus (c : SchedClass ω) : Nat := c.queues.cpus

def isActive (c : SchedClass ω) : Bool := c.policy.isSome

def policyName (c : SchedClass ω) : Option String := c.policy.map (·.name)

def task? (c : SchedClass ω) (pid : Pid) : Option Task := (c.tasks.get? pid).map (·.task)

def state? (c : SchedClass ω) (pid : Pid) : Option RunState := (c.tasks.get? pid).map (·.state)

def current? (c : SchedClass ω) (cpu : CpuId) : Option Pid := c.current[cpu]?.join

def queued? (c : SchedClass ω) (queue : QueueId) : Option Nat := c.queues.length? queue

def localLength (c : SchedClass ω) (cpu : CpuId) : Nat := c.queues.localLength cpu

def setState (c : SchedClass ω) (pid : Pid) (state : RunState) : SchedClass ω :=
  { c with tasks := c.tasks.modify pid fun slot => { slot with state } }

def mapTask (c : SchedClass ω) (pid : Pid) (f : Task → Task) : SchedClass ω :=
  { c with tasks := c.tasks.modify pid fun slot => { slot with task := f slot.task } }

def advanceClock (c : SchedClass ω) (delta : Nanos) : Nanos × SchedClass ω :=
  let now := c.clock + delta
  (now, { c with clock := now })

def invoke {α : Type} (c : SchedClass ω) (cpu : CpuId) (body : Callback ω α) : α × Progress ω :=
  body.run cpu c.clock ⟨c.queues, [], none, c.memory⟩

def resume (c : SchedClass ω) (p : Progress ω) : SchedClass ω :=
  { c with queues := p.queues, memory := p.memory }

/-- Runs a callback for a processor. It yields the value and the placements, or the first misuse. -/
def call {α : Type} (c : SchedClass ω) (cpu : CpuId) (body : Callback ω α) :
    Except ClassError (α × List Placement) × SchedClass ω :=
  let (value, p) := c.invoke cpu body
  let c := c.resume p
  match p.error with
  | some e => (.error e, c)
  | none => (.ok (value, p.placements), c)

def placeOne (c : SchedClass ω) (cpu : CpuId) (placed : List Pid) (p : Placement) :
    Except ClassError (SchedClass ω) :=
  if !c.tasks.contains p.pid then .error (.unknownTask p.pid)
  else if placed.contains p.pid || c.queues.contains p.pid then .error (.doubleDispatch p.pid)
  else
    match c.queues.push p.queue cpu p.pid with
    | .error e => .error e
    | .ok queues =>
      let place := fun (slot : Slot) =>
        { slot with task := { slot.task with slice := p.slice }, state := RunState.queued }
      .ok { c with queues, tasks := c.tasks.modify p.pid place }

/-- Makes placements in order and yields the tasks placed; those before an error stay made. -/
def place (c : SchedClass ω) (cpu : CpuId) (placed : List Pid) :
    List Placement → Except ClassError (List Pid) × SchedClass ω
  | [] => (.ok placed, c)
  | p :: rest =>
    match c.placeOne cpu placed p with
    | .error e => (.error e, c)
    | .ok c => c.place cpu (placed ++ [p.pid]) rest

def callAndPlace {α : Type} (c : SchedClass ω) (cpu : CpuId) (body : Callback ω α) :
    Except ClassError (List Pid) × SchedClass ω :=
  match c.call cpu body with
  | (.error e, c) => (.error e, c)
  | (.ok (_, placements), c) => c.place cpu [] placements

def enqueueGlobal (c : SchedClass ω) (pid : Pid) : Except ClassError (SchedClass ω) :=
  match c.queues.push globalQueue 0 pid with
  | .error e => .error e
  | .ok queues =>
    let place := fun (slot : Slot) =>
      { slot with task := { slot.task with slice := defaultSlice }, state := RunState.queued }
    .ok { c with queues, tasks := c.tasks.modify pid place }

def enqueueAllGlobal (c : SchedClass ω) (pids : List Pid) : SchedClass ω :=
  pids.foldl (fun c pid => (c.enqueueGlobal pid).toOption.getD c) c

def stranded (c : SchedClass ω) (orphans : List Pid) : List Pid :=
  (c.tasks.filter fun pid slot =>
    slot.state = .queued && !orphans.contains pid && !c.queues.contains pid).keys

/-- Destroys the queues of a policy. Their tasks, and waiting tasks that are in no queue, go to the
global queue. -/
def requeueOrphans (c : SchedClass ω) : SchedClass ω :=
  let (orphans, queues) := c.queues.destroyPolicyQueues
  let c := { c with queues }
  c.enqueueAllGlobal (orphans ++ c.stranded orphans)

/-- Removes the policy for a reason that is kept; without a policy nothing happens. -/
def abort (c : SchedClass ω) (reason : ClassError) : SchedClass ω :=
  match c.policy with
  | none => c
  | some policy =>
    let c := requeueOrphans { c with policy := none }
    { c with exit := some ⟨policy.name, reason⟩ }

def consult {α : Type} (c : SchedClass ω) (cpu : CpuId) (body : Callback ω α) : SchedClass ω :=
  match c.callAndPlace cpu body with
  | (.error e, c) => c.abort e
  | (.ok _, c) => c

def enqueueWith (c : SchedClass ω) (policy : Policy ω) (pid : Pid) (cpu : CpuId) (flags : UInt64) :
    SchedClass ω :=
  match c.task? pid with
  | none => c
  | some task =>
    match c.callAndPlace cpu (policy.enqueue task flags) with
    | (.error e, c) => c.abort e
    | (.ok placed, c) => if placed.contains pid then c else c.abort (.notQueued pid)

/-- Brings a task under the policy; the record that the policy returns replaces the task's own. -/
def enableWith (c : SchedClass ω) (policy : Policy ω) (pid : Pid) : SchedClass ω :=
  match c.task? pid with
  | none => c
  | some task =>
    match c.call task.lastCpu (policy.enable task) with
    | (.error e, c) => c.abort e
    | (.ok (task, _), c) => c.mapTask pid fun _ => task

def enable (c : SchedClass ω) (pid : Pid) : SchedClass ω :=
  match c.policy with
  | none => c
  | some policy => c.enableWith policy pid

end SchedClass

end LoadableSched
