import LoadableSched.Class.State

/-!
The operations of the scheduling class: installing and removing policies, and the life of a task
from its registration over waking, running and stopping to its removal.
-/

namespace LoadableSched.SchedClass

variable {ω : Type}

def introduce (c : SchedClass ω) (policy : Policy ω) : Except ClassError Unit × SchedClass ω :=
  match c.call 0 policy.init with
  | (.error e, c) => (.error e, c)
  | (.ok (code, placements), c) =>
    if code ≠ 0 then (.error (.initFailed code), c)
    else
      match c.place 0 [] placements with
      | (.error e, c) => (.error e, c)
      | (.ok _, c) => (.ok (), c)

def install (c : SchedClass ω) (policy : Policy ω) : Except ClassError Unit × SchedClass ω :=
  match c.policy with
  | some active => (.error (.busy active.name), c)
  | none =>
    match introduce { c with policy := some policy } policy with
    | (.error e, c) => (.error e, requeueOrphans { c with policy := none })
    | (.ok (), c) =>
      let c := c.tasks.keys.foldl enable c
      (.ok (), { c with exit := none })

def uninstall (c : SchedClass ω) : Option String × SchedClass ω :=
  match c.policy with
  | none => (none, c)
  | some policy => (some policy.name, requeueOrphans { c with policy := none })

def register (c : SchedClass ω) (task : Task) : SchedClass ω :=
  let record := { task with lastCpu := min task.lastCpu (c.cpus - 1) }
  { c with tasks := c.tasks.insert task.pid ⟨record, .sleeping⟩ }

def addTask (c : SchedClass ω) (task : Task) : Except ClassError Unit × SchedClass ω :=
  if c.tasks.contains task.pid then (.error (.taskExists task.pid), c)
  else (.ok (), (c.register task).enable task.pid)

def removeTask (c : SchedClass ω) (pid : Pid) : Except ClassError Unit × SchedClass ω :=
  match c.tasks.get? pid with
  | none => (.error (.unknownTask pid), c)
  | some slot =>
    let c := { c with tasks := c.tasks.erase pid }
    match slot.state with
    | .sleeping => (.ok (), c)
    | .queued => (.ok (), { c with queues := (c.queues.remove pid).2 })
    | .running cpu =>
      (.ok (), { c with current := c.current.set cpu none, queues := c.queues.setIdle cpu true })

/-- Lets the policy choose a processor for a waking task, and makes the placements of that callback
on the processor chosen. -/
def chooseCpu (c : SchedClass ω) (policy : Policy ω) (task : Task) (flags : UInt64) :
    Except ClassError (CpuId × List Pid) × SchedClass ω :=
  match c.call task.lastCpu (policy.selectCpu task task.lastCpu flags) with
  | (.error e, c) => (.error e, c)
  | (.ok (cpu, placements), c) =>
    if c.cpus ≤ cpu then (.error (.invalidCpu cpu), c)
    else
      match c.place cpu [] placements with
      | (.error e, c) => (.error e, c)
      | (.ok placed, c) => (.ok (cpu, placed), c)

/-- Wakes a sleeping task; the policy places it on the way or is asked to enqueue it. -/
def wake (c : SchedClass ω) (pid : Pid) (flags : UInt64) : Except ClassError Unit × SchedClass ω :=
  match c.tasks.get? pid with
  | none => (.error (.unknownTask pid), c)
  | some slot =>
    if slot.state ≠ .sleeping then (.ok (), c)
    else
      let c := c.setState pid .queued
      match c.policy with
      | none =>
        match c.enqueueGlobal pid with
        | .error e => (.error e, c)
        | .ok c => (.ok (), c)
      | some policy =>
        match c.chooseCpu policy slot.task flags with
        | (.error e, c) => (.ok (), c.abort e)
        | (.ok (cpu, placed), c) =>
          let c := c.mapTask pid fun task => { task with lastCpu := cpu }
          if placed.contains pid then (.ok (), c)
          else (.ok (), c.enqueueWith policy pid cpu 0)

def enqueue (c : SchedClass ω) (pid : Pid) (flags : UInt64) : Except ClassError Unit × SchedClass ω :=
  match c.tasks.get? pid with
  | none => (.error (.unknownTask pid), c)
  | some slot =>
    if slot.state ≠ .sleeping then (.ok (), c)
    else
      let c := c.setState pid .queued
      match c.policy with
      | none =>
        match c.enqueueGlobal pid with
        | .error e => (.error e, c)
        | .ok c => (.ok (), c)
      | some policy => (.ok (), c.enqueueWith policy pid slot.task.lastCpu flags)

def previousWaiting (c : SchedClass ω) (cpu : CpuId) : Option Task :=
  match c.previous[cpu]?.join with
  | none => none
  | some pid =>
    match c.tasks.get? pid with
    | none => none
    | some slot => if slot.state = .queued then some slot.task else none

def refill (c : SchedClass ω) (cpu : CpuId) : SchedClass ω :=
  match c.policy with
  | none => c
  | some policy =>
    if c.localLength cpu ≠ 0 then c
    else c.consult cpu (policy.dispatch cpu (c.previousWaiting cpu))

def takeNext (c : SchedClass ω) (cpu : CpuId) : Except ClassError (Option Pid) × SchedClass ω :=
  match c.queues.popLocal cpu with
  | (some pid, queues) => (.ok (some pid), { c with queues })
  | (none, _) =>
    match c.queues.pop globalQueue with
    | .error e => (.error e, c)
    | .ok (next, queues) => (.ok next, { c with queues })

def start (c : SchedClass ω) (cpu : CpuId) (task : Task) : SchedClass ω :=
  match c.policy with
  | none => c
  | some policy => c.consult cpu (policy.running task)

def occupy (c : SchedClass ω) (cpu : CpuId) (pid : Pid) : SchedClass ω :=
  { c with
    queues := c.queues.setIdle cpu false
    current := c.current.set cpu (some pid) }

def engage (c : SchedClass ω) (cpu : CpuId) (pid : Pid) : SchedClass ω :=
  { c with tasks := c.tasks.modify pid fun slot => ⟨slot.task.startOn cpu, .running cpu⟩ }

def run (c : SchedClass ω) (cpu : CpuId) (pid : Pid) : Except ClassError (Option Pid) × SchedClass ω :=
  let c := c.occupy cpu pid
  match c.tasks.get? pid with
  | none => (.error (.unknownTask pid), c)
  | some slot => (.ok (some pid), (c.engage cpu pid).start cpu (slot.task.startOn cpu))

def pickNext (c : SchedClass ω) (cpu : CpuId) : Except ClassError (Option Pid) × SchedClass ω :=
  if c.cpus ≤ cpu then (.error (.invalidCpu cpu), c)
  else
    match c.current? cpu with
    | some pid => (.ok (some pid), c)
    | none =>
      match (c.refill cpu).takeNext cpu with
      | (.error e, c) => (.error e, c)
      | (.ok none, c) => (.ok none, { c with queues := c.queues.setIdle cpu true })
      | (.ok (some pid), c) => c.run cpu pid

def halt (c : SchedClass ω) (cpu : CpuId) (task : Task) (runnable : Bool) : SchedClass ω :=
  match c.policy with
  | none => c
  | some policy => c.consult cpu (policy.stopping task runnable)

/-- Decides where a stopped task goes, unless its policy placed it while it stopped. -/
def settleStopped (c : SchedClass ω) (cpu : CpuId) (pid : Pid) (runnable : Bool) :
    Except ClassError (Option Pid) × SchedClass ω :=
  if c.state? pid ≠ some (.running cpu) then (.ok (some pid), c)
  else if !runnable then (.ok (some pid), c.setState pid .sleeping)
  else
    let c := c.setState pid .queued
    match c.policy with
    | some policy => (.ok (some pid), c.enqueueWith policy pid cpu 0)
    | none =>
      match c.enqueueGlobal pid with
      | .error e => (.error e, c)
      | .ok c => (.ok (some pid), c)

def vacate (c : SchedClass ω) (cpu : CpuId) (pid : Pid) : SchedClass ω :=
  { c with
    current := c.current.set cpu none
    previous := c.previous.set cpu (some pid)
    queues := c.queues.setIdle cpu true }

def stop (c : SchedClass ω) (cpu : CpuId) (ran : Nanos) (runnable : Bool) :
    Except ClassError (Option Pid) × SchedClass ω :=
  if c.cpus ≤ cpu then (.error (.invalidCpu cpu), c)
  else
    match c.current? cpu with
    | none => (.ok none, c)
    | some pid =>
      let c := c.vacate cpu pid
      match c.tasks.get? pid with
      | none => (.error (.unknownTask pid), c)
      | some slot =>
        let task := slot.task.charge ran
        let c := c.mapTask pid fun _ => task
        (c.halt cpu task runnable).settleStopped cpu pid runnable

end LoadableSched.SchedClass
