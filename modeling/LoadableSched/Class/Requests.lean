import LoadableSched.Class.Callback

/-!
What a callback asks of the scheduling class, in order, each request with the queues as it found them,
and which of its requests are misuses.
-/

namespace LoadableSched

/-- A call into the scheduling class that can be a misuse. -/
inductive Request where
  | place (placement : Placement)
  | take (queue : QueueId)
  | giveUp (message : String)
deriving DecidableEq, Repr

def Queues.misuse? (q : Queues) (cpu : CpuId) : Request → Option ClassError
  | .place placement => if q.has placement.queue then none else some (.queueMissing placement.queue)
  | .take queue =>
    if q.cpus ≤ cpu then some (.invalidCpu cpu)
    else if q.shared.contains queue then none
    else some (.queueMissing queue)
  | .giveUp message => some (.policy message)

def Request.placement? : Request → Option Placement
  | .place placement => some placement
  | _ => none

namespace Callback

variable {ω α : Type}

def requests (cpu : CpuId) (now : Nanos) : Callback ω α → Progress ω → List (Queues × Request)
  | done _, _ => []
  | createQueue id next, p =>
    (next (p.queues.create id).1).requests cpu now { p with queues := (p.queues.create id).2 }
  | selectCpu previous next, p =>
    (next (p.queues.selectCpu previous).1).requests cpu now
      { p with queues := (p.queues.selectCpu previous).2 }
  | dispatch pid queue slice next, p =>
    (p.queues, .place ⟨pid, queue, slice⟩) :: next.requests cpu now (p.dispatch ⟨pid, queue, slice⟩)
  | consume queue next, p =>
    (p.queues, .take queue) ::
      (next (p.consume queue cpu).1).requests cpu now (p.consume queue cpu).2
  | queued queue next, p => (next (p.queued queue cpu)).requests cpu now p
  | moment next, p => (next ⟨cpu, p.queues.cpus, now⟩).requests cpu now p
  | fail message next, p =>
    (p.queues, .giveUp message) :: next.requests cpu now (p.record (.policy message))
  | readMemory next, p => (next p.memory).requests cpu now p
  | writeMemory memory next, p => next.requests cpu now { p with memory }

/-- The numbers under which a callback asks for queues, in order, each with the queues as it found them. -/
def creations (cpu : CpuId) (now : Nanos) : Callback ω α → Progress ω → List (Queues × Int64)
  | done _, _ => []
  | createQueue id next, p =>
    (p.queues, id) ::
      (next (p.queues.create id).1).creations cpu now { p with queues := (p.queues.create id).2 }
  | selectCpu previous next, p =>
    (next (p.queues.selectCpu previous).1).creations cpu now
      { p with queues := (p.queues.selectCpu previous).2 }
  | dispatch pid queue slice next, p => next.creations cpu now (p.dispatch ⟨pid, queue, slice⟩)
  | consume queue next, p => (next (p.consume queue cpu).1).creations cpu now (p.consume queue cpu).2
  | queued queue next, p => (next (p.queued queue cpu)).creations cpu now p
  | moment next, p => (next ⟨cpu, p.queues.cpus, now⟩).creations cpu now p
  | fail message next, p => next.creations cpu now (p.record (.policy message))
  | readMemory next, p => (next p.memory).creations cpu now p
  | writeMemory memory next, p => next.creations cpu now { p with memory }

end Callback

end LoadableSched
