import LoadableSched.Basic

/-!
The record of a task, and where a task is.
-/

namespace LoadableSched

structure Task where
  pid : Pid
  weight : UInt32 := 100
  slice : Nanos := 0
  vtime : Nanos := 0
  lastCpu : CpuId := 0
deriving DecidableEq, Repr

def Task.withWeight (t : Task) (weight : UInt32) : Task :=
  { t with weight := if weight = 0 then 1 else weight }

def Task.charge (t : Task) (ran : Nanos) : Task :=
  let weight := if t.weight = 0 then 1 else t.weight
  { t with
    slice := subSat t.slice ran
    vtime := addSat t.vtime (mulSat ran 100 / weight.toUInt64) }

def Task.startOn (t : Task) (cpu : CpuId) : Task :=
  { t with
    slice := if t.slice = 0 then defaultSlice else t.slice
    lastCpu := cpu }

inductive RunState where
  | sleeping
  | queued
  | running (cpu : CpuId)
deriving DecidableEq, Repr

end LoadableSched
