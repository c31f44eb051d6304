import LoadableSched.Class.Callback
import LoadableSched.Counters.Basic
import LoadableSched.Store.Typed

/-!
The memory that policies share with the rest of the host: map storage, counters, and the record of
what scripted policies were asked and answered.
-/

namespace LoadableSched

inductive Decision where
  | init
  | selectCpu
  | enqueue
  | dispatch
  | running
  | stopping
  | enable
deriving DecidableEq, Repr

namespace Decision

def all : List Decision := [init, selectCpu, enqueue, dispatch, running, stopping, enable]

def name : Decision → String
  | init => "init"
  | selectCpu => "select_cpu"
  | enqueue => "enqueue"
  | dispatch => "dispatch"
  | running => "running"
  | stopping => "stopping"
  | enable => "enable"

end Decision

inductive Question where
  | init
  | selectCpu (task : Task) (previous : CpuId) (flags : UInt64)
  | enqueue (task : Task) (flags : UInt64)
  | dispatch (cpu : CpuId) (previous : Option Task)
  | running (task : Task)
  | stopping (task : Task) (runnable : Bool)
  | enable (task : Task)
deriving DecidableEq, Repr

namespace Question

def decision : Question → Decision
  | init => .init
  | selectCpu .. => .selectCpu
  | enqueue .. => .enqueue
  | dispatch .. => .dispatch
  | running _ => .running
  | stopping .. => .stopping
  | enable _ => .enable

def task? : Question → Option Task
  | init => none
  | selectCpu task _ _ => some task
  | enqueue task _ => some task
  | dispatch _ previous => previous
  | running task => some task
  | stopping task _ => some task
  | enable task => some task

def previousCpu : Question → CpuId
  | selectCpu _ previous _ => previous
  | _ => 0

end Question

inductive Reply where
  | nothing
  | queue (queue : QueueId)
  | refused (error : ClassError)
  | flag (b : Bool)
  | count (n : Nat)
  | chosen (cpu : CpuId) (idle : Bool)
deriving DecidableEq, Repr

structure Invocation where
  cpu : CpuId
  now : Nanos
  question : Question
  replies : List Reply
deriving DecidableEq, Repr

abbrev StoreId := Nat

structure Memory where
  stores : List Store
  counters : List Counters
  /-- For each scripted policy, which decisions it was asked for so far, latest first. -/
  asked : List (List Decision)
  trace : List Invocation
deriving Repr

namespace Memory

def empty : Memory := ⟨[], [], [], []⟩

instance : Inhabited Memory := ⟨empty⟩

def newStore (m : Memory) (kind : MapKind) (layout : Layout) : StoreId × Memory :=
  (m.stores.length, { m with stores := m.stores ++ [Store.empty kind layout] })

def newCounters (m : Memory) : Nat × Memory :=
  (m.counters.length, { m with counters := m.counters ++ [Counters.zero] })

def newScript (m : Memory) : Nat × Memory :=
  (m.asked.length, { m with asked := m.asked ++ [[]] })

def store (m : Memory) (id : StoreId) : Store := m.stores.getD id default

def setStore (m : Memory) (id : StoreId) (s : Store) : Memory :=
  { m with stores := m.stores.set id s }

def read (m : Memory) (id : StoreId) (pid : Pid) : Option UInt64 × Memory :=
  let (value, s) := (m.store id).getTyped UInt64 pid
  (value, m.setStore id s)

def write (m : Memory) (id : StoreId) (pid : Pid) (value : UInt64) : Memory :=
  match (m.store id).putTyped pid value with
  | .error _ => m
  | .ok s => m.setStore id s

def forget (m : Memory) (id : StoreId) (pid : Pid) : Bool × Memory :=
  let (present, s) := (m.store id).deleteTyped pid
  (present, m.setStore id s)

def countersAt (m : Memory) (id : Nat) : Counters := m.counters.getD id default

def setCounters (m : Memory) (id : Nat) (c : Counters) : Memory :=
  { m with counters := m.counters.set id c }

def count (m : Memory) (id : Nat) (amounts : List (Counter × UInt64)) : Memory :=
  m.setCounters id ((m.countersAt id).addAll amounts)

def sample (m : Memory) (id : Nat) : Counters × Memory :=
  let (sample, rest) := (m.countersAt id).sample
  (sample, m.setCounters id rest)

def ask (m : Memory) (script : Nat) (decision : Decision) : Nat × Memory :=
  let before := m.asked.getD script []
  (before.count decision, { m with asked := m.asked.set script (decision :: before) })

def record (m : Memory) (i : Invocation) : Memory := { m with trace := m.trace ++ [i] }

def takeTrace (m : Memory) : List Invocation × Memory := (m.trace, { m with trace := [] })

end Memory

structure TaskMaps where
  enqueueTime : StoreId
  sliceUsage : StoreId
deriving DecidableEq, Repr

def taskMapLayout : Layout := ⟨4, 8, taskMapCapacity⟩

/-- Stores of the policies' own, which belong to no extension. -/
def Memory.newTaskMaps (m : Memory) : TaskMaps × Memory :=
  let (enqueueTime, m) := m.newStore .lruHash taskMapLayout
  let (sliceUsage, m) := m.newStore .lruHash taskMapLayout
  (⟨enqueueTime, sliceUsage⟩, m)

end LoadableSched
