import LoadableSched.Workload.Operations

/-!
Sums of times that are beyond the greatest word. They wrap in all other definitions; a program that checks its
sums stops at the first one.
-/

namespace LoadableSched

def exceedsWord (a b : Nanos) : Bool := UInt64.size ≤ a.toNat + b.toNat

namespace Workload

open SchedClass (Operation)

variable {ω : Type}

def napOn? (w : Workload) (turns : List Turn) (cpu : CpuId) : Option Nanos :=
  (turns.find? (·.cpu = cpu)).bind fun t => (w.bursts.get? t.pid).map (·.profile.sleep)

/-- An operation comes to such a sum in a step with these turns: the clock moves, or a task goes to sleep. -/
def exceeds (w : Workload) (turns : List Turn) (before after : Nanos) : Operation ω → Bool
  | .advanceClock delta => exceedsWord before delta
  | .stop cpu _ false => (w.napOn? turns cpu).any (exceedsWord after)
  | _ => false

def overflows (w : Workload) (c : SchedClass ω) : Bool :=
  (w.operations c).any (w.exceeds (w.turns c) c.clock (w.step c).2.clock)

/-- A run until a deadline comes to such a sum, with `fuel` steps allowed. -/
def runOverflows (deadline : Nanos) : Nat → Workload → SchedClass ω → Bool
  | 0, _, _ => false
  | fuel + 1, w, c =>
    if c.clock < deadline then
      w.overflows c ||
        match w.step c with
        | ((.error _, _), _) => false
        | ((.ok _, w), c) => runOverflows deadline fuel w c
    else false

end Workload

end LoadableSched
