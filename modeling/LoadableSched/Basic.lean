/-!
Names of the things that a scheduler handles, and the arithmetic of 64-bit quantities that stop at
their ends instead of wrapping.
-/

namespace LoadableSched

abbrev Pid := UInt32

abbrev CpuId := Nat

abbrev QueueId := UInt64

abbrev Nanos := UInt64

abbrev IfIndex := Nat

def maxWord : Nat := UInt64.size - 1

/-- The 64-bit quantity closest to a natural number. -/
def clampWord (n : Nat) : UInt64 := UInt64.ofNat (min n maxWord)

def addSat (a b : UInt64) : UInt64 := clampWord (a.toNat + b.toNat)

def subSat (a b : UInt64) : UInt64 := UInt64.ofNat (a.toNat - b.toNat)

def mulSat (a b : UInt64) : UInt64 := clampWord (a.toNat * b.toNat)

theorem clampWord_toNat (n : Nat) : (clampWord n).toNat = min n maxWord := by
  have bound : min n maxWord < 2 ^ 64 := Nat.lt_of_le_of_lt (Nat.min_le_right n maxWord) (by decide)
  simp only [clampWord, UInt64.toNat_ofNat']
  exact Nat.mod_eq_of_lt bound

theorem addSat_toNat (a b : UInt64) : (addSat a b).toNat = min (a.toNat + b.toNat) maxWord :=
  clampWord_toNat _

theorem subSat_toNat (a b : UInt64) : (subSat a b).toNat = a.toNat - b.toNat := by
  have bound : a.toNat - b.toNat < 2 ^ 64 := Nat.lt_of_le_of_lt (Nat.sub_le _ _) a.toNat_lt
  simp only [subSat, UInt64.toNat_ofNat']
  exact Nat.mod_eq_of_lt bound

def globalQueue : QueueId := 0x8000000000000001

/-- Stands for the queue of the processor that a placement is made for. -/
def localQueue : QueueId := 0x8000000000000002

/-- Queues of the scheduling class itself have the top bit set; those of a policy do not. -/
def isBuiltin (queue : QueueId) : Bool := queue &&& 0x8000000000000000 != 0

def defaultSlice : Nanos := 20000000

/-- The flag of a wake-up that makes a sleeping task runnable. -/
def wakeRunnable : UInt64 := 8

def maxCpus : Nat := 1024

def taskMapCapacity : UInt32 := 100000

end LoadableSched
