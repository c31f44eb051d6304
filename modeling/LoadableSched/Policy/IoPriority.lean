import LoadableSched.Policy.RoundRobin

/-!
Priority for I/O: tasks that use little of their slices go to a queue that is served first. How much
a task uses is its last sample or a moving average; a task that was never observed uses all of it.
-/

namespace LoadableSched

inductive UsageModel where
  | lastSample
  | average (weight : UInt64) (initial : Nanos)
deriving DecidableEq, Repr

structure IoPriority where
  slice : Nanos
  prioSlice : Nanos
  threshold : UInt64
  model : UsageModel
  maps : TaskMaps
  counters : Nat
deriving DecidableEq, Repr

namespace IoPriority

def normalQueue : QueueId := 0

def prioQueue : QueueId := 1

def ofTunables (t : Tunables) (model : UsageModel) (maps : TaskMaps) (counters : Nat) : IoPriority :=
  ⟨t.slice, t.prioSlice, t.prioThreshold, model, maps, counters⟩

def name (p : IoPriority) : String :=
  match p.model with
  | .lastSample => "io_priority"
  | .average .. => "prio_weighted_avg"

def percent (p : IoPriority) (pid : Pid) (m : Memory) : UInt64 × Memory :=
  let (sample, m) := m.read p.maps.sliceUsage pid
  (Usage.percent sample p.slice, m)

def isIoBound (p : IoPriority) (pid : Pid) (m : Memory) : Bool × Memory :=
  let (share, m) := p.percent pid m
  (share < p.threshold, m)

/-- The usage to record after a sample. -/
def recorded (p : IoPriority) (pid : Pid) (used : Nanos) : Callback Memory Nanos :=
  match p.model with
  | .lastSample => return used
  | .average weight initial => do
    let previous ← lookUp p.maps.sliceUsage pid
    return Usage.average (previous.getD initial) used weight

def policy (p : IoPriority) : Policy Memory where
  name := p.name
  init := Fifo.createOr 1 (Fifo.createOr 0 (return 0))
  selectCpu task previous _ := do
    let (cpu, idle) ← Callback.pickCpu previous
    if idle then
      stamp p.maps.enqueueTime task.pid
      Callback.place task.pid localQueue p.slice
      tally p.counters Counters.recordDirectDispatch
    return cpu
  enqueue task _ := do
    if ← Callback.update (p.isIoBound task.pid) then
      Callback.place task.pid prioQueue p.prioSlice
    else
      Callback.place task.pid normalQueue p.slice
    stamp p.maps.enqueueTime task.pid
  dispatch _ _ := do
    let waiting ← Callback.length prioQueue
    let _ ← Callback.take (if waiting ≥ 1 then prioQueue else normalQueue)
  running task := do
    match ← lookUp p.maps.enqueueTime task.pid with
    | none => return
    | some since =>
      let m ← Callback.here
      let wait := subSat m.now since
      if ← Callback.update (p.isIoBound task.pid) then
        tally p.counters (Counters.recordPrioWait wait)
      else
        tally p.counters (Counters.recordNormalWait wait)
      tally p.counters (Counters.recordWait wait)
  stopping task _ := do
    let used := Usage.used p.slice task.slice
    let value ← p.recorded task.pid used
    Callback.update fun memory => ((), memory.write p.maps.sliceUsage task.pid value)
    tally p.counters (Counters.recordSlice used p.slice)
  counters := some p.counters

end IoPriority

end LoadableSched
