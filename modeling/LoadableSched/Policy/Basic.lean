import LoadableSched.Class.Callback

/-!
A scheduling policy: seven decisions, each a callback.
-/

namespace LoadableSched

/-- A policy with memory `ω`. A callback that a policy does not need does nothing. -/
structure Policy (ω : Type) where
  name : String
  init : Callback ω Int
  /-- Chooses a processor for a waking task, given its previous one. -/
  selectCpu : Task → CpuId → UInt64 → Callback ω CpuId
  enqueue : Task → UInt64 → Callback ω Unit
  dispatch : CpuId → Option Task → Callback ω Unit
  running : Task → Callback ω Unit := fun _ => .done ()
  stopping : Task → Bool → Callback ω Unit := fun _ _ => .done ()
  /-- A task comes under this policy, which may change the task's record. -/
  enable : Task → Callback ω Task := fun t => .done t
  counters : Option Nat := none

end LoadableSched
