import LoadableSched.Class.Inquiries

/-!
What a policy hears: the callbacks of an operation in order, as far as a task can tell them apart, each with what
went wrong in it.
-/

namespace LoadableSched.SchedClass

inductive Notice where
  | enable
  | selectCpu (direct : Bool)
  | enqueue
  | running (cpu : CpuId)
  | stopping (cpu : CpuId) (runnable : Bool)
deriving DecidableEq, Repr

inductive Occasion where
  | init
  | dispatch (cpu : CpuId)
  | task (pid : Pid) (notice : Notice)
deriving DecidableEq, Repr

/-- A callback, and the misuse for which it cost the policy its place. -/
structure Event where
  occasion : Occasion
  failure : Option ClassError
deriving DecidableEq, Repr

def Event.notice? (pid : Pid) (event : Event) : Option Notice :=
  match event.occasion with
  | .task other notice => if other = pid then some notice else none
  | _ => none

def noticesOf (pid : Pid) (events : List Event) : List Notice := events.filterMap (Event.notice? pid)

variable {ω : Type}

/-- Whether the policy placed a task while it chose a processor for it. -/
def placesDirectly (c : SchedClass ω) (policy : Policy ω) (task : Task) (flags : UInt64) : Bool :=
  (c.invoke task.lastCpu (policy.selectCpu task task.lastCpu flags)).2.placements.any
    (·.pid = task.pid)

def Inquiry.event (i : Inquiry ω) : Event where
  occasion :=
    match i.matter with
    | .init => .init
    | .selectCpu task flags => .task task.pid (.selectCpu (i.before.placesDirectly i.policy task flags))
    | .enqueue _ task _ _ => .task task.pid .enqueue
    | .dispatch cpu _ => .dispatch cpu
    | .running cpu task => .task task.pid (.running cpu)
    | .stopping cpu task runnable => .task task.pid (.stopping cpu runnable)
    | .enable _ task => .task task.pid .enable
  failure := i.failure

def heard (c : SchedClass ω) (op : Operation ω) : List Event := (c.inquiries op).map Inquiry.event

def installHeard (c : SchedClass ω) (policy : Policy ω) : List Event := c.heard (.install policy)

def allHeard (c : SchedClass ω) (ops : List (Operation ω)) : List Event :=
  (c.allInquiries ops).map Inquiry.event

theorem allHeard_cons (c : SchedClass ω) (op : Operation ω) (rest : List (Operation ω)) :
    c.allHeard (op :: rest) = c.heard op ++ (c.step op).allHeard rest := List.map_append

end LoadableSched.SchedClass
