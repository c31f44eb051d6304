import LoadableSched.Class.Lifecycle

/-!
A synthetic workload: tasks that run in bursts and may sleep between them. In each step every
processor runs one task, all of them side by side, and the clock moves by the longest of the runs.
-/

namespace LoadableSched

structure Profile where
  pid : Pid
  weight : UInt32
  burst : Nanos
  sleep : Nanos
deriving DecidableEq, Repr

namespace Profile

def cpuBound (pid : Pid) : Profile := ⟨pid, 100, UInt64.ofNat maxWord, 0⟩

def ioBound (pid : Pid) : Profile := ⟨pid, 100, 100000, 2000000⟩

def mixed (first : Pid) (count : Nat) : List Profile :=
  (List.range count).map fun i =>
    let pid := first + UInt32.ofNat i
    if i % 2 = 0 then cpuBound pid else ioBound pid

end Profile

structure Burst where
  profile : Profile
  left : Nanos
deriving DecidableEq, Repr

structure Sleeper where
  due : Nanos
  pid : Pid
deriving DecidableEq, Repr

namespace Sleeper

def before (a b : Sleeper) : Bool := a.due < b.due || a.due = b.due && a.pid ≤ b.pid

def insert (s : Sleeper) : List Sleeper → List Sleeper
  | [] => [s]
  | t :: rest => if s.before t then s :: t :: rest else t :: insert s rest

end Sleeper

structure Workload where
  bursts : Table Pid Burst
  sleepers : List Sleeper
deriving Repr

structure StepReport where
  ran : Nat
  elapsed : Nanos
deriving DecidableEq, Repr

structure Turn where
  cpu : CpuId
  pid : Pid
  ran : Nanos
deriving DecidableEq, Repr

namespace Workload

variable {ω : Type}

def idleTick : Nanos := 100000

def forEach {α : Type} (op : SchedClass ω → α → Except ClassError Unit × SchedClass ω)
    (c : SchedClass ω) : List α → Except ClassError Unit × SchedClass ω
  | [] => (.ok (), c)
  | a :: rest =>
    match op c a with
    | (.error e, c) => (.error e, c)
    | (.ok (), c) => forEach op c rest

def spawn (c : SchedClass ω) (profiles : List Profile) :
    Except ClassError Workload × SchedClass ω :=
  let register := fun (c : SchedClass ω) (p : Profile) =>
    c.addTask (Task.withWeight { pid := p.pid } p.weight)
  match forEach register c profiles with
  | (.error e, c) => (.error e, c)
  | (.ok (), c) =>
    match forEach (fun c (p : Profile) => c.wake p.pid wakeRunnable) c profiles with
    | (.error e, c) => (.error e, c)
    | (.ok (), c) =>
      (.ok ⟨Table.ofList (profiles.map fun p => (p.pid, ⟨p, p.burst⟩)), []⟩, c)

def wakeDue (c : SchedClass ω) :
    List Sleeper → (Except ClassError Unit × List Sleeper) × SchedClass ω
  | [] => ((.ok (), []), c)
  | s :: rest =>
    if c.clock < s.due then ((.ok (), s :: rest), c)
    else
      match c.wake s.pid wakeRunnable with
      | (.error e, c) => ((.error e, rest), c)
      | (.ok (), c) => wakeDue c rest

/-- How long a picked task runs: its burst, within its slice. -/
def turnOf (w : Workload) (c : SchedClass ω) (cpu : CpuId) (pid : Pid) : Turn :=
  let slice := ((c.task? pid).map fun t => max t.slice 1).getD 1
  let burst := ((w.bursts.get? pid).map (·.left)).getD slice
  ⟨cpu, pid, min burst slice⟩

def pickTurns (w : Workload) (c : SchedClass ω) :
    List CpuId → Except ClassError (List Turn) × SchedClass ω
  | [] => (.ok [], c)
  | cpu :: rest =>
    match c.pickNext cpu with
    | (.error e, c) => (.error e, c)
    | (.ok picked, c) =>
      match pickTurns w c rest with
      | (.error e, c') => (.error e, c')
      | (.ok turns, c') =>
        match picked with
        | none => (.ok turns, c')
        | some pid => (.ok (w.turnOf c cpu pid :: turns), c')

/-- Ends a turn: the burst shrinks, and a task whose burst is over may go to sleep. -/
def endTurn (w : Workload) (c : SchedClass ω) (t : Turn) :
    (Except ClassError Unit × Workload) × SchedClass ω :=
  let stop := fun (w : Workload) (runnable : Bool) =>
    match c.stop t.cpu t.ran runnable with
    | (.error e, c) => ((.error e, w), c)
    | (.ok _, c) => ((.ok (), w), c)
  match w.bursts.get? t.pid with
  | none => stop w false
  | some burst =>
    let left := subSat burst.left t.ran
    let finished := left = 0
    let burst := { burst with left := if finished then burst.profile.burst else left }
    let w := { w with bursts := w.bursts.insert t.pid burst }
    if finished && burst.profile.sleep > 0 then
      let sleeper := ⟨c.clock + burst.profile.sleep, t.pid⟩
      stop { w with sleepers := Sleeper.insert sleeper w.sleepers } false
    else stop w true

def endTurns (w : Workload) (c : SchedClass ω) :
    List Turn → (Except ClassError Unit × Workload) × SchedClass ω
  | [] => ((.ok (), w), c)
  | t :: rest =>
    match w.endTurn c t with
    | ((.error e, w), c) => ((.error e, w), c)
    | ((.ok (), w), c) => endTurns w c rest

/-- The time until the first sleeper is due, and at least one nanosecond. -/
def idleTime (w : Workload) (now : Nanos) : Nanos :=
  match w.sleepers with
  | [] => idleTick
  | s :: _ => max (subSat s.due now) 1

def step (w : Workload) (c : SchedClass ω) :
    (Except ClassError StepReport × Workload) × SchedClass ω :=
  match wakeDue c w.sleepers with
  | ((.error e, sleepers), c) => ((.error e, { w with sleepers }), c)
  | ((.ok (), sleepers), c) =>
    let w := { w with sleepers }
    match w.pickTurns c (List.range c.cpus) with
    | (.error e, c) => ((.error e, w), c)
    | (.ok [], c) =>
      let elapsed := w.idleTime c.clock
      ((.ok ⟨0, elapsed⟩, w), (c.advanceClock elapsed).2)
    | (.ok turns, c) =>
      let elapsed := (turns.map (·.ran)).foldl max 0
      match w.endTurns (c.advanceClock elapsed).2 turns with
      | ((.error e, w), c) => ((.error e, w), c)
      | ((.ok (), w), c) => ((.ok ⟨turns.length, elapsed⟩, w), c)

inductive RunEnd where
  | reached (steps : Nat)
  | failed (error : ClassError)
  | exhausted
deriving DecidableEq, Repr

/-- Steps until the clock reaches a deadline, with `fuel` steps allowed and `steps` made so far. -/
def runUntil (deadline : Nanos) : Nat → Nat → Workload → SchedClass ω →
    (RunEnd × Workload) × SchedClass ω
  | 0, steps, w, c => ((if c.clock < deadline then .exhausted else .reached steps, w), c)
  | fuel + 1, steps, w, c =>
    if c.clock < deadline then
      match w.step c with
      | ((.error e, w), c) => ((.failed e, w), c)
      | ((.ok _, w), c) => runUntil deadline fuel (steps + 1) w c
    else ((.reached steps, w), c)

def stepLimit : Nat := UInt64.size

def runFor (w : Workload) (c : SchedClass ω) (duration : Nanos) :
    (RunEnd × Workload) × SchedClass ω :=
  runUntil (addSat c.clock duration) stepLimit 0 w c

end Workload

end LoadableSched
