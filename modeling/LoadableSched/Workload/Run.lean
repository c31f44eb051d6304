import LoadableSched.Workload

/-!
Runs of a workload that has the class to itself: step after step, and where its tasks are meanwhile.
-/

namespace LoadableSched.Workload

variable {ω : Type}

def after (w : Workload) (c : SchedClass ω) : Nat → Workload × SchedClass ω
  | 0 => (w, c)
  | n + 1 =>
    let (w, c) := w.after c n
    ((w.step c).1.2, (w.step c).2)

def stateOnceWoken (w : Workload) (c : SchedClass ω) (pid : Pid) : Option RunState :=
  (wakeDue c w.sleepers).2.state? pid

def FallsAsleep (w : Workload) (c : SchedClass ω) (pid : Pid) : Prop :=
  w.stateOnceWoken c pid ≠ some .sleeping ∧ (w.step c).2.state? pid = some .sleeping

/-- The task waits in one place of one queue and for no wake-up, or it sleeps and waits for one wake-up. -/
def Located (w : Workload) (c : SchedClass ω) (pid : Pid) : Prop :=
  (c.state? pid = some .queued ∧ c.queues.waiting.count pid = 1 ∧ ∀ s ∈ w.sleepers, s.pid ≠ pid) ∨
    (c.state? pid = some .sleeping ∧ w.sleepers.countP (·.pid = pid) = 1)

/-- What a spawned workload can rely on, however many steps it makes and whatever becomes of the times. -/
structure KeepsAll (profiles : List Profile) (w : Workload) (c : SchedClass ω) : Prop where
  queued : ∀ p ∈ profiles, c.state? p.pid = some .queued
  steps : ∀ n, ∃ report, ((w.after c n).1.step (w.after c n).2).1.1 = .ok report
  idle : ∀ n cpu, (w.after c (n + 1)).2.current? cpu = none
  located : ∀ n, ∀ p ∈ profiles, (w.after c n).1.Located (w.after c n).2 p.pid

/-- When a task is due that falls asleep in step `n`: its burst ends when the step does, and it sleeps from
then on. This is a number; the times end at the greatest word. -/
def due (w : Workload) (c : SchedClass ω) (n : Nat) (p : Profile) : Nat :=
  (w.after c (n + 1)).2.clock.toNat + p.sleep.toNat

/-- From step `n` on the task sleeps in every step that begins before it is due, and the first other one wakes
it. -/
def Rests (w : Workload) (c : SchedClass ω) (n : Nat) (p : Profile) : Prop :=
  ∀ m, n < m → (∀ k, n < k → k < m → (w.after c k).2.clock.toNat < w.due c n p) →
    (w.after c m).2.state? p.pid = some .sleeping ∧
      (w.after c m).1.stateOnceWoken (w.after c m).2 p.pid =
        some (if w.due c n p ≤ (w.after c m).2.clock.toNat then .queued else .sleeping)

end LoadableSched.Workload
