import LoadableSched.Workload.Operations

/-!
A class watched from outside: with what slice the task of a processor was picked, and how much time tasks were
charged since they were last woken.
-/

namespace LoadableSched

variable {ω : Type}

namespace SchedClass

def Rouses (c : SchedClass ω) (op : Operation ω) (pid : Pid) : Prop :=
  c.state? pid = some .sleeping ∧ (c.step op).state? pid ≠ some .sleeping

instance (c : SchedClass ω) (op : Operation ω) (pid : Pid) : Decidable (c.Rouses op pid) :=
  inferInstanceAs (Decidable (_ ∧ _))

def Lulls (c : SchedClass ω) (op : Operation ω) (pid : Pid) : Prop :=
  c.state? pid ≠ some .sleeping ∧ (c.step op).state? pid = some .sleeping

def seat? (c : SchedClass ω) (cpu : CpuId) : Option (Pid × Nanos) :=
  (c.current? cpu).bind fun pid => (c.task? pid).map fun task => (pid, task.slice)

end SchedClass

open SchedClass (Operation)

structure Meter (ω : Type) where
  here : SchedClass ω
  /-- The task that was picked last for a processor and has not been stopped since, with its slice then. -/
  picked : CpuId → Option (Pid × Nanos)
  /-- The time that a task was charged since it was last woken. -/
  spent : Pid → Nat

namespace Meter

def of (c : SchedClass ω) : Meter ω := ⟨c, fun _ => none, fun _ => 0⟩

def step (m : Meter ω) (op : Operation ω) : Meter ω where
  here := m.here.step op
  picked other :=
    match op with
    | .pickNext cpu => if other = cpu then (m.here.step op).seat? cpu else m.picked other
    | .stop cpu _ _ => if other = cpu then none else m.picked other
    | _ => m.picked other
  spent pid :=
    if m.here.Rouses op pid then 0
    else
      match op with
      | .stop cpu ran _ => if m.here.current? cpu = some pid then m.spent pid + ran.toNat else m.spent pid
      | _ => m.spent pid

def steps (m : Meter ω) : List (Operation ω) → Meter ω
  | [] => m
  | op :: rest => (m.step op).steps rest

/-- Each operation of a run, with what the meter reads before it. -/
def trace (m : Meter ω) : List (Operation ω) → List (Meter ω × Operation ω)
  | [] => []
  | op :: rest => (m, op) :: (m.step op).trace rest

end Meter

/-- At this operation all is accounted for: a task is stopped on a processor that it was picked for, after no
more time than its slice was then, and a task with a time to sleep is woken, and falls asleep, when it was
charged exactly its burst. -/
structure Meter.Settles (profiles : List Profile) (m : Meter ω) (op : Operation ω) : Prop where
  stops : ∀ cpu ran runnable, op = .stop cpu ran runnable →
    ∃ pid slice, m.here.current? cpu = some pid ∧ m.picked cpu = some (pid, slice) ∧ ran ≤ slice
  wakes : ∀ p ∈ profiles, p.sleep ≠ 0 → m.here.Rouses op p.pid → m.spent p.pid = p.burst.toNat
  sleeps : ∀ p ∈ profiles, p.sleep ≠ 0 → m.here.Lulls op p.pid → (m.step op).spent p.pid = p.burst.toNat

end LoadableSched
