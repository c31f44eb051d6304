import LoadableSched.Basic
import LoadableSched.Failure

/-!
What goes wrong inside the scheduling class, and what it is called outside of it.
-/

namespace LoadableSched

inductive ClassError where
  | queueExists (queue : QueueId)
  | queueMissing (queue : QueueId)
  | invalidQueueId (id : Int)
  | invalidCpu (cpu : CpuId)
  | unknownTask (pid : Pid)
  | taskExists (pid : Pid)
  /-- A task was placed that waits already, or twice by one callback. -/
  | doubleDispatch (pid : Pid)
  | notQueued (pid : Pid)
  | initFailed (code : Int)
  | busy (policy : String)
  | policy (message : String)
deriving DecidableEq, Repr

namespace ClassError

def queueText (queue : QueueId) : String :=
  "0x" ++ String.ofList (Nat.toDigits 16 queue.toNat)

def message : ClassError → String
  | queueExists queue => "dispatch queue " ++ queueText queue ++ " already exists"
  | queueMissing queue => "dispatch queue " ++ queueText queue ++ " does not exist"
  | invalidQueueId id => "invalid dispatch queue id " ++ toString id
  | invalidCpu cpu => "invalid CPU " ++ toString cpu
  | unknownTask pid => "unknown task " ++ toString pid
  | taskExists pid => "task " ++ toString pid ++ " is already registered"
  | doubleDispatch pid => "task " ++ toString pid ++ " was dispatched while already queued"
  | notQueued pid => "task " ++ toString pid ++ " was not placed in any dispatch queue"
  | initFailed code => "init returned " ++ toString code
  | busy name => "scheduler " ++ name ++ " is already installed"
  | policy text => "scheduler error: " ++ text

def errno : ClassError → Errno
  | queueExists _ => .alreadyExists
  | taskExists _ => .alreadyExists
  | queueMissing _ => .noEntry
  | unknownTask _ => .noEntry
  | busy _ => .busy
  | initFailed code => if code < 0 then Errno.ofCode code.natAbs else .invalid
  | _ => .invalid

/-- The negative code under which a policy sees the error. -/
def returnCode (e : ClassError) : Int := -(e.errno.code : Int)

def failure (e : ClassError) : Failure := .attach "scheduling class" (some e.errno) e.message

end ClassError

end LoadableSched
