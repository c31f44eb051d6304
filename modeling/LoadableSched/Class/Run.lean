import LoadableSched.Class.Lifecycle

/-!
The operations of the scheduling class as data, and runs of them in any order.
-/

namespace LoadableSched.SchedClass

/-- What is asked of the scheduling class, or done to the memory that its policies share with the
outside. -/
inductive Operation (ω : Type) where
  | install (policy : Policy ω)
  | uninstall
  | addTask (task : Task)
  | removeTask (pid : Pid)
  | wake (pid : Pid) (flags : UInt64)
  | enqueue (pid : Pid) (flags : UInt64)
  | pickNext (cpu : CpuId)
  | stop (cpu : CpuId) (ran : Nanos) (runnable : Bool)
  | advanceClock (delta : Nanos)
  | setMemory (memory : ω)

variable {ω : Type}

def Operation.SparesPolicy : Operation ω → Prop
  | .install _ => False
  | .uninstall => False
  | _ => True

def step (c : SchedClass ω) : Operation ω → SchedClass ω
  | .install policy => (c.install policy).2
  | .uninstall => c.uninstall.2
  | .addTask task => (c.addTask task).2
  | .removeTask pid => (c.removeTask pid).2
  | .wake pid flags => (c.wake pid flags).2
  | .enqueue pid flags => (c.enqueue pid flags).2
  | .pickNext cpu => (c.pickNext cpu).2
  | .stop cpu ran runnable => (c.stop cpu ran runnable).2
  | .advanceClock delta => (c.advanceClock delta).2
  | .setMemory memory => { c with memory }

def steps (c : SchedClass ω) : List (Operation ω) → SchedClass ω
  | [] => c
  | op :: rest => (c.step op).steps rest

theorem steps_append (c : SchedClass ω) (ops later : List (Operation ω)) :
    c.steps (ops ++ later) = (c.steps ops).steps later := by
  induction ops generalizing c with
  | nil => rfl
  | cons op rest ih => exact ih (c.step op)

end LoadableSched.SchedClass
