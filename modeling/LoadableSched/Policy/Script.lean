import LoadableSched.Policy.Basic
import LoadableSched.Policy.Memory

/-!
Scripted policies: for each decision a list of actions, done in order, each under conditions. What a
scripted policy is asked and what its actions get back is recorded in the memory.
-/

namespace LoadableSched

inductive TaskField where
  | weight
  | slice
  | vtime
  | lastCpu
deriving DecidableEq, Repr

def TaskField.set (field : TaskField) (value : UInt64) (task : Task) : Task :=
  match field with
  | .weight => { task with weight := value.toUInt32 }
  | .slice => { task with slice := value }
  | .vtime => { task with vtime := value }
  | .lastCpu => { task with lastCpu := value.toUInt32.toNat }

inductive Deed where
  /-- Creates a queue; with `adopt`, an error becomes the return code. -/
  | create (id : Int64) (adopt : Bool)
  | dispatch (queue : QueueId) (slice : Nanos) (pid : Option Pid)
  | consume (queue : QueueId)
  | length (queue : QueueId)
  | cpus
  | select (previous : Option CpuId)
  | answer (cpu : CpuId)
  | returnCode (code : Int)
  | giveUp (message : String)
  | set (field : TaskField) (value : UInt64)
  | nothing
deriving DecidableEq, Repr

structure Action where
  pidIs : Option Pid
  callIs : Option Nat
  ifIdle : Option Bool
  deed : Deed
deriving DecidableEq, Repr

/-- Where a callback stands between two of its actions. -/
structure Standing where
  cpu : CpuId
  code : Int
  idle : Bool
  task : Option Task
  replies : List Reply
deriving DecidableEq, Repr

def Action.applies (a : Action) (call : Nat) (s : Standing) : Bool :=
  (match a.pidIs with
    | none => true
    | some pid => s.task.map (·.pid) = some pid) &&
  (match a.callIs with
    | none => true
    | some n => n = call) &&
  (match a.ifIdle with
    | none => true
    | some b => b = s.idle)

structure Script where
  name : String
  actions : Decision → List Action

namespace Script

def perform (question : Question) (s : Standing) : Deed → Callback Memory Standing
  | .create id adopt => do
    match ← Callback.create id with
    | .ok queue => return { s with replies := s.replies ++ [.queue queue] }
    | .error e =>
      return { s with
        code := if adopt then e.returnCode else s.code
        replies := s.replies ++ [.refused e] }
  | .dispatch queue slice pid => do
    match pid <|> s.task.map (·.pid) with
    | none => return { s with replies := s.replies ++ [.nothing] }
    | some pid =>
      Callback.place pid queue slice
      return { s with replies := s.replies ++ [.nothing] }
  | .consume queue => do
    let moved ← Callback.take queue
    return { s with replies := s.replies ++ [.flag moved] }
  | .length queue => do
    let n ← Callback.length queue
    return { s with replies := s.replies ++ [.count n] }
  | .cpus => do
    let m ← Callback.here
    return { s with replies := s.replies ++ [.count m.cpus] }
  | .select previous => do
    let (cpu, idle) ← Callback.pickCpu (previous.getD question.previousCpu)
    return { s with cpu, idle, replies := s.replies ++ [.chosen cpu idle] }
  | .answer cpu => return { s with cpu, replies := s.replies ++ [.nothing] }
  | .returnCode code => return { s with code, replies := s.replies ++ [.nothing] }
  | .giveUp message => do
    Callback.giveUp message
    return { s with replies := s.replies ++ [.nothing] }
  | .set field value =>
    return { s with task := s.task.map (field.set value), replies := s.replies ++ [.nothing] }
  | .nothing => return { s with replies := s.replies ++ [.nothing] }

def performAll (question : Question) (call : Nat) (s : Standing) :
    List Action → Callback Memory Standing
  | [] => return s
  | a :: rest => do
    if a.applies call s then
      let s ← perform question s a.deed
      performAll question call s rest
    else performAll question call s rest

def answer (script : Script) (id : Nat) (question : Question) : Callback Memory Standing := do
  let call ← Callback.update fun memory => memory.ask id question.decision
  let start : Standing := ⟨question.previousCpu, 0, false, question.task?, []⟩
  let s ← performAll question call start (script.actions question.decision)
  let m ← Callback.here
  Callback.update fun memory => ((), memory.record ⟨m.cpu, m.now, question, s.replies⟩)
  return s

def policy (script : Script) (id : Nat) : Policy Memory where
  name := script.name
  init := do
    let s ← script.answer id .init
    return s.code
  selectCpu task previous flags := do
    let s ← script.answer id (.selectCpu task previous flags)
    return s.cpu
  enqueue task flags := do
    let _ ← script.answer id (.enqueue task flags)
  dispatch cpu previous := do
    let _ ← script.answer id (.dispatch cpu previous)
  running task := do
    let _ ← script.answer id (.running task)
  stopping task runnable := do
    let _ ← script.answer id (.stopping task runnable)
  enable task := do
    let s ← script.answer id (.enable task)
    return s.task.getD task

end Script

end LoadableSched
