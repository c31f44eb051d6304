import LoadableSched.Policy.Fifo
import LoadableSched.Policy.Memory
import LoadableSched.Usage

/-!
Round robin: one shared queue and a fixed slice. The policy stamps each task when it queues it, and
counts how long tasks wait and how much of their slices they use.
-/

namespace LoadableSched

def stamp (map : StoreId) (pid : Pid) : Callback Memory Unit := do
  let m ← Callback.here
  Callback.update fun memory => ((), memory.write map pid m.now)

def tally (counters : Nat) (amounts : List (Counter × UInt64)) : Callback Memory Unit :=
  Callback.update fun memory => ((), memory.count counters amounts)

def lookUp (map : StoreId) (pid : Pid) : Callback Memory (Option UInt64) :=
  Callback.update fun memory => memory.read map pid

structure RoundRobin where
  slice : Nanos
  enqueueTime : StoreId
  counters : Nat
deriving DecidableEq, Repr

namespace RoundRobin

def queue : QueueId := 0

def policy (r : RoundRobin) : Policy Memory where
  name := "round_robin"
  init := Fifo.createOr 0 (return 0)
  selectCpu task previous _ := do
    let (cpu, idle) ← Callback.pickCpu previous
    if idle then
      stamp r.enqueueTime task.pid
      Callback.place task.pid localQueue r.slice
      tally r.counters Counters.recordDirectDispatch
    return cpu
  enqueue task _ := do
    Callback.place task.pid queue r.slice
    stamp r.enqueueTime task.pid
  dispatch _ _ := do
    let _ ← Callback.take queue
  running task := do
    match ← lookUp r.enqueueTime task.pid with
    | none => return
    | some since =>
      let m ← Callback.here
      tally r.counters (Counters.recordWait (subSat m.now since))
  stopping task _ := tally r.counters (Counters.recordSlice (Usage.used r.slice task.slice) r.slice)
  counters := some r.counters

end RoundRobin

end LoadableSched
