import LoadableSched.Class.Queues
import LoadableSched.Class.Task

/-!
What a policy can do inside a callback. A callback is a finite tree of calls into the scheduling
class, each with what follows for each of its answers; it runs against the queues, and the
placements it asks for are collected and made after it returns.
-/

namespace LoadableSched

structure Moment where
  cpu : CpuId
  cpus : Nat
  now : Nanos
deriving DecidableEq, Repr

/-- A callback of a policy with memory `ω` that ends with an `α`. -/
inductive Callback (ω α : Type) where
  | done (value : α)
  | createQueue (id : Int64) (next : Except ClassError QueueId → Callback ω α)
  | selectCpu (previous : CpuId) (next : CpuId × Bool → Callback ω α)
  | dispatch (pid : Pid) (queue : QueueId) (slice : Nanos) (next : Callback ω α)
  | consume (queue : QueueId) (next : Bool → Callback ω α)
  | queued (queue : QueueId) (next : Nat → Callback ω α)
  | moment (next : Moment → Callback ω α)
  /-- Gives up: the policy is removed once the callback returns. -/
  | fail (message : String) (next : Callback ω α)
  | readMemory (next : ω → Callback ω α)
  | writeMemory (memory : ω) (next : Callback ω α)

namespace Callback

variable {ω α β : Type}

def bind : Callback ω α → (α → Callback ω β) → Callback ω β
  | done value, f => f value
  | createQueue id next, f => createQueue id fun answer => (next answer).bind f
  | selectCpu previous next, f => selectCpu previous fun answer => (next answer).bind f
  | dispatch pid queue slice next, f => dispatch pid queue slice (next.bind f)
  | consume queue next, f => consume queue fun answer => (next answer).bind f
  | queued queue next, f => queued queue fun answer => (next answer).bind f
  | moment next, f => moment fun answer => (next answer).bind f
  | fail message next, f => fail message (next.bind f)
  | readMemory next, f => readMemory fun memory => (next memory).bind f
  | writeMemory memory next, f => writeMemory memory (next.bind f)

instance : Monad (Callback ω) where
  pure := done
  bind := bind

/-! The calls themselves, to be put in sequence. -/

def create (id : Int64) : Callback ω (Except ClassError QueueId) := createQueue id done

def pickCpu (previous : CpuId) : Callback ω (CpuId × Bool) := selectCpu previous done

def place (pid : Pid) (queue : QueueId) (slice : Nanos) : Callback ω Unit :=
  dispatch pid queue slice (done ())

def take (queue : QueueId) : Callback ω Bool := consume queue done

def length (queue : QueueId) : Callback ω Nat := queued queue done

def here : Callback ω Moment := moment done

def giveUp (message : String) : Callback ω Unit := fail message (done ())

def read : Callback ω ω := readMemory done

def write (memory : ω) : Callback ω Unit := writeMemory memory (done ())

def update (f : ω → α × ω) : Callback ω α :=
  readMemory fun memory => writeMemory (f memory).2 (done (f memory).1)

end Callback

structure Placement where
  pid : Pid
  queue : QueueId
  slice : Nanos
deriving DecidableEq, Repr

structure Progress (ω : Type) where
  queues : Queues
  placements : List Placement
  error : Option ClassError
  memory : ω

namespace Progress

variable {ω : Type}

def record (p : Progress ω) (e : ClassError) : Progress ω :=
  { p with error := p.error <|> some e }

/-- Notes a placement on a queue that exists; another queue is a misuse. -/
def dispatch (p : Progress ω) (placement : Placement) : Progress ω :=
  if p.queues.has placement.queue then { p with placements := p.placements ++ [placement] }
  else p.record (.queueMissing placement.queue)

def consume (p : Progress ω) (queue : QueueId) (cpu : CpuId) : Bool × Progress ω :=
  match p.queues.moveToLocal queue cpu with
  | .ok (moved, queues) => (moved, { p with queues })
  | .error e => (false, p.record e)

def queued (p : Progress ω) (queue : QueueId) (cpu : CpuId) : Nat :=
  if queue = localQueue then p.queues.localLength cpu else (p.queues.length? queue).getD 0

end Progress

namespace Callback

variable {ω α : Type}

def run (cpu : CpuId) (now : Nanos) : Callback ω α → Progress ω → α × Progress ω
  | done value, p => (value, p)
  | createQueue id next, p =>
    let (answer, queues) := p.queues.create id
    (next answer).run cpu now { p with queues }
  | selectCpu previous next, p =>
    let (answer, queues) := p.queues.selectCpu previous
    (next answer).run cpu now { p with queues }
  | dispatch pid queue slice next, p => next.run cpu now (p.dispatch ⟨pid, queue, slice⟩)
  | consume queue next, p =>
    let (answer, p) := p.consume queue cpu
    (next answer).run cpu now p
  | queued queue next, p => (next (p.queued queue cpu)).run cpu now p
  | moment next, p => (next ⟨cpu, p.queues.cpus, now⟩).run cpu now p
  | fail message next, p => next.run cpu now (p.record (.policy message))
  | readMemory next, p => (next p.memory).run cpu now p
  | writeMemory memory next, p => next.run cpu now { p with memory }

theorem run_bind {β : Type} (cpu : CpuId) (now : Nanos) (c : Callback ω α) (f : α → Callback ω β)
    (p : Progress ω) :
    (c.bind f).run cpu now p = (f (c.run cpu now p).1).run cpu now (c.run cpu now p).2 := by
  induction c generalizing p with
  | done value => rfl
  | createQueue id next ih => exact ih _ _
  | selectCpu previous next ih => exact ih _ _
  | dispatch pid queue slice next ih => exact ih _
  | consume queue next ih => exact ih _ _
  | queued queue next ih => exact ih _ _
  | moment next ih => exact ih _ _
  | fail message next ih => exact ih _
  | readMemory next ih => exact ih _ _
  | writeMemory memory next ih => exact ih _

end Callback

end LoadableSched
