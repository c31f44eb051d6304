import LoadableSched.Policy.Recipe
import LoadableSched.Workload.Overflow

/-!
A machine without an operating system around it: the scheduling class, the maps that its policies
share, and the workload that runs on it.
-/

namespace LoadableSched

structure Machine where
  sched : SchedClass Memory
  maps : TaskMaps
  workload : Option Workload

namespace Machine

def new (cpus : Nat) : Machine :=
  let (maps, memory) := Memory.empty.newTaskMaps
  ⟨SchedClass.new cpus memory, maps, none⟩

def memory (m : Machine) : Memory := m.sched.memory

def setMemory (m : Machine) (memory : Memory) : Machine :=
  { m with sched := { m.sched with memory } }

def onClass {α : Type} (m : Machine) (op : SchedClass Memory → α × SchedClass Memory) : α × Machine :=
  let (value, sched) := op m.sched
  (value, { m with sched })

def onMemory {α : Type} (m : Machine) (op : Memory → α × Memory) : α × Machine :=
  let (value, memory) := op m.memory
  (value, m.setMemory memory)

def install (m : Machine) (r : Recipe) : Except ClassError Unit × Machine :=
  let (policy, memory) := r.build m.maps m.memory
  (m.setMemory memory).onClass (·.install policy)

def counters? (m : Machine) : Option Counters :=
  (m.sched.policy.bind (·.counters)).map m.memory.countersAt

def sampleCounters (m : Machine) : Option Counters × Machine :=
  match m.sched.policy.bind (·.counters) with
  | none => (none, m)
  | some id =>
    let (sample, memory) := m.memory.sample id
    (some sample, m.setMemory memory)

def wordsOf (m : Machine) (pid : Pid) : (Option UInt64 × Option UInt64) × Machine :=
  let (time, memory) := m.memory.read m.maps.enqueueTime pid
  let (usage, memory) := memory.read m.maps.sliceUsage pid
  ((time, usage), m.setMemory memory)

/-- How a priority policy with these settings would see a task: the share of its slice that it uses,
and whether that makes it I/O bound. -/
def classify (m : Machine) (t : Tunables) (pid : Pid) : (UInt64 × Bool) × Machine :=
  let p := IoPriority.ofTunables t .lastSample m.maps 0
  let (share, memory) := p.percent pid m.memory
  let (bound, memory) := p.isIoBound pid memory
  ((share, bound), m.setMemory memory)

def lengths (m : Machine) (queues : List QueueId) : List (QueueId × Nat) :=
  let asked := Table.ofList (queues.map fun queue => (queue, ()))
  asked.keys.filterMap fun queue => (m.sched.queued? queue).map fun length => (queue, length)

def spawn (m : Machine) (profiles : List Profile) : Except ClassError Unit × Machine :=
  match Workload.spawn m.sched profiles with
  | (.error e, sched) => (.error e, { m with sched })
  | (.ok workload, sched) => (.ok (), { m with sched, workload := some workload })

def step (m : Machine) : Option (Except ClassError StepReport) × Machine :=
  match m.workload with
  | none => (none, m)
  | some workload =>
    let ((report, workload), sched) := workload.step m.sched
    (some report, { m with sched, workload := some workload })

def runFor (m : Machine) (duration : Nanos) : Option Workload.RunEnd × Machine :=
  match m.workload with
  | none => (none, m)
  | some workload =>
    let ((outcome, workload), sched) := workload.runFor m.sched duration
    (some outcome, { m with sched, workload := some workload })

/-! A machine that checks its sums of times stops at these operations. -/

def advanceOverflows (m : Machine) (delta : Nanos) : Bool := exceedsWord m.sched.clock delta

def stepOverflows (m : Machine) : Bool := m.workload.any (·.overflows m.sched)

def runOverflows (m : Machine) (duration : Nanos) : Bool :=
  m.workload.any fun w => w.runOverflows (addSat m.sched.clock duration) Workload.stepLimit m.sched

end Machine

end LoadableSched
