import LoadableSched.Counters.Basic

/-!
Calls that work on the same counters at the same time. Each call is a sequence of single steps, and between
two of them any steps of other calls may happen. The steps on one counter happen in one order, which is all
that a relaxed addition or exchange promises, and all that is said here speaks of one counter at a time.
-/

namespace LoadableSched.Counters

inductive Step where
  | add (counter : Counter) (amount : UInt64)
  | swap (counter : Counter)
  | load (counter : Counter)
deriving DecidableEq, Repr

def Step.adding (amounts : List (Counter × UInt64)) : List Step :=
  amounts.map fun (counter, amount) => .add counter amount

inductive Call where
  | recordWait (wait : Nanos)
  | recordPrioWait (wait : Nanos)
  | recordNormalWait (wait : Nanos)
  | recordSlice (used granted : Nanos)
  | recordDirectDispatch
  | sample
  | look
deriving DecidableEq, Repr

namespace Call

def amounts : Call → List (Counter × UInt64)
  | recordWait wait => Counters.recordWait wait
  | recordPrioWait wait => Counters.recordPrioWait wait
  | recordNormalWait wait => Counters.recordNormalWait wait
  | recordSlice used granted => Counters.recordSlice used granted
  | recordDirectDispatch => Counters.recordDirectDispatch
  | sample => []
  | look => []

def steps : Call → List Step
  | sample => Counter.all.map .swap
  | look => Counter.all.map .load
  | record => Step.adding record.amounts

end Call

/-- A call under way: its steps to come, and the values it has read; of a sample or a look that is over, these
are what it returns. -/
structure Ongoing where
  call : Call
  todo : List Step
  read : Counters
deriving DecidableEq, Repr

def Call.begin (call : Call) : Ongoing := ⟨call, call.steps, zero⟩

def Step.perform (read shared : Counters) : Step → Counters × Counters
  | .add counter amount => (read, shared.add counter amount)
  | .swap counter =>
    let (value, shared) := shared.swap counter
    (read.set counter value, shared)
  | .load counter => (read.set counter (shared.get counter), shared)

structure Crowd where
  shared : Counters
  calls : List Ongoing
deriving DecidableEq, Repr

namespace Crowd

def start (calls : List Call) : Crowd := ⟨zero, calls.map Call.begin⟩

/-- The next step of one of the calls; a call that is over has none. -/
def turn (crowd : Crowd) (i : Nat) : Crowd :=
  match crowd.calls[i]? with
  | some ⟨call, step :: rest, read⟩ =>
    let (read, shared) := step.perform read crowd.shared
    ⟨shared, crowd.calls.set i ⟨call, rest, read⟩⟩
  | _ => crowd

def turns (crowd : Crowd) (schedule : List Nat) : Crowd := schedule.foldl turn crowd

def Finished (crowd : Crowd) : Prop := ∀ o ∈ crowd.calls, o.todo = []

instance (crowd : Crowd) : Decidable crowd.Finished := inferInstanceAs (Decidable (∀ o ∈ crowd.calls, o.todo = []))

def samples (crowd : Crowd) : List Counters :=
  (crowd.calls.filter fun o => o.call = .sample ∧ o.todo = []).map (·.read)

end Crowd

end LoadableSched.Counters
