import LoadableSched.Class.Inquiries

/-!
What a callback does to the queues: the tasks that it put there, and whether some processor ran one of them.
-/

namespace LoadableSched.SchedClass

variable {ω : Type}

/-- A callback: the class before it ran, and after its placements were made as far as they could be. -/
structure Call (ω : Type) where
  before : SchedClass ω
  after : SchedClass ω

def Call.Puts (call : Call ω) (pid : Pid) : Prop :=
  pid ∉ call.before.queues.waiting ∧ pid ∈ call.after.queues.waiting

def Call.Displaces (call : Call ω) : Prop :=
  ∃ cpu pid, call.before.current? cpu = some pid ∧ call.Puts pid

def Inquiry.call (i : Inquiry ω) : Call ω := ⟨i.before, i.reached⟩

def allCalls (c : SchedClass ω) (ops : List (Operation ω)) : List (Call ω) :=
  (c.allInquiries ops).map Inquiry.call

end LoadableSched.SchedClass
