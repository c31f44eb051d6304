import LoadableSched.Class.Error
import LoadableSched.Table

/-!
The dispatch queues: one per processor, the global one, and those that a policy creates. All are
served first in, first out. Beside them stands, for each processor, whether it is idle.
-/

namespace LoadableSched

structure Queues where
  shared : Table QueueId (List Pid)
  locals : List (List Pid)
  idle : List Bool
  nextFree : QueueId
deriving Repr

namespace Queues

def new (cpus : Nat) : Queues where
  shared := Table.ofList [(globalQueue, [])]
  locals := List.replicate cpus []
  idle := List.replicate cpus true
  nextFree := 0

def cpus (q : Queues) : Nat := q.locals.length

/-- The first number from `start` on that no queue has; one of the next `fuel` numbers is free. -/
def firstFree (q : Queues) : Nat → QueueId → QueueId
  | 0, start => start
  | fuel + 1, start => if q.shared.contains start then firstFree q fuel (start + 1) else start

/-- Creates a queue under a number, or under the least free number if asked for `-1`. -/
def create (q : Queues) (id : Int64) : Except ClassError QueueId × Queues :=
  let insert := fun (q : Queues) (queue : QueueId) =>
    if q.shared.contains queue then (.error (.queueExists queue), q)
    else (.ok queue, { q with shared := q.shared.insert queue [] })
  if id.toInt = -1 then
    let free := q.firstFree q.shared.size q.nextFree
    insert { q with nextFree := free } free
  else if id.toInt < 0 then (.error (.invalidQueueId id.toInt), q)
  else insert q (UInt64.ofNat id.toInt.toNat)

def has (q : Queues) (queue : QueueId) : Bool := queue = localQueue || q.shared.contains queue

def push (q : Queues) (queue : QueueId) (cpu : CpuId) (pid : Pid) : Except ClassError Queues :=
  if queue = localQueue then
    if cpu < q.cpus then .ok { q with locals := q.locals.modify cpu (· ++ [pid]) }
    else .error (.invalidCpu cpu)
  else if q.shared.contains queue then
    .ok { q with shared := q.shared.modify queue (· ++ [pid]) }
  else .error (.queueMissing queue)

def pop (q : Queues) (queue : QueueId) : Except ClassError (Option Pid × Queues) :=
  match q.shared.get? queue with
  | none => .error (.queueMissing queue)
  | some pids => .ok (pids.head?, { q with shared := q.shared.modify queue List.tail })

def popLocal (q : Queues) (cpu : CpuId) : Option Pid × Queues :=
  ((q.locals[cpu]?.bind List.head?), { q with locals := q.locals.modify cpu List.tail })

def moveToLocal (q : Queues) (queue : QueueId) (cpu : CpuId) : Except ClassError (Bool × Queues) :=
  if q.cpus ≤ cpu then .error (.invalidCpu cpu)
  else
    match q.pop queue with
    | .error e => .error e
    | .ok (none, q) => .ok (false, q)
    | .ok (some pid, q) => .ok (true, { q with locals := q.locals.modify cpu (· ++ [pid]) })

def length? (q : Queues) (queue : QueueId) : Option Nat := (q.shared.get? queue).map List.length

def localLength (q : Queues) (cpu : CpuId) : Nat := (q.locals[cpu]?.map List.length).getD 0

def waiting (q : Queues) : List Pid := q.shared.values.flatten ++ q.locals.flatten

def contains (q : Queues) (pid : Pid) : Bool := q.waiting.contains pid

def remove (q : Queues) (pid : Pid) : Bool × Queues :=
  match q.shared.entries.find? (·.2.contains pid) with
  | some (queue, _) => (true, { q with shared := q.shared.modify queue (·.erase pid) })
  | none =>
    match q.locals.findIdx? (·.contains pid) with
    | some cpu => (true, { q with locals := q.locals.modify cpu (·.erase pid) })
    | none => (false, q)

def destroyPolicyQueues (q : Queues) : List Pid × Queues :=
  let orphans := (q.shared.filter fun queue _ => !isBuiltin queue).values.flatten
  (orphans, { q with shared := q.shared.filter fun queue _ => isBuiltin queue, nextFree := 0 })

def claim (q : Queues) (cpu : CpuId) : Bool × Queues :=
  if q.idle[cpu]? = some true then (true, { q with idle := q.idle.set cpu false }) else (false, q)

def claimAny (q : Queues) : Option CpuId × Queues :=
  match q.idle.findIdx? id with
  | none => (none, q)
  | some cpu => (some cpu, { q with idle := q.idle.set cpu false })

def setIdle (q : Queues) (cpu : CpuId) (idle : Bool) : Queues := { q with idle := q.idle.set cpu idle }

def isIdle (q : Queues) (cpu : CpuId) : Bool := q.idle[cpu]?.getD false

/-- Keeps the previous processor if it is idle, else takes any idle one; the flag tells whether the
processor was idle and is now claimed. -/
def selectCpu (q : Queues) (previous : CpuId) : (CpuId × Bool) × Queues :=
  let (claimed, q) := if previous < q.cpus then q.claim previous else (false, q)
  if claimed then ((previous, true), q)
  else
    match q.claimAny with
    | (some cpu, q) => ((cpu, true), q)
    | (none, q) => ((min previous (q.cpus - 1), false), q)

end Queues

end LoadableSched
