import LoadableSched.Class.Run
import LoadableSched.Workload.Run

/-!
What a workload asks of its class, as operations in order: of those that are due to wake, of every processor,
of the clock, and of those whose turns end. An operation that fails is the last one.
-/

namespace LoadableSched.Workload

open SchedClass (Operation)

variable {ω : Type}

def wakeOperations (c : SchedClass ω) : List Sleeper → List (Operation ω)
  | [] => []
  | s :: rest =>
    if c.clock < s.due then []
    else .wake s.pid wakeRunnable ::
      match c.wake s.pid wakeRunnable with
      | (.error _, _) => []
      | (.ok (), c) => wakeOperations c rest

def pickOperations (c : SchedClass ω) : List CpuId → List (Operation ω)
  | [] => []
  | cpu :: rest => .pickNext cpu ::
    match c.pickNext cpu with
    | (.error _, _) => []
    | (.ok _, c) => pickOperations c rest

/-- A task stays runnable after its turn unless its burst is over and it sleeps then. One that the workload
does not know is not. -/
def staysRunnable (w : Workload) (t : Turn) : Bool :=
  match w.bursts.get? t.pid with
  | none => false
  | some burst => !(decide (subSat burst.left t.ran = 0) && decide (burst.profile.sleep > 0))

def stopOperations (w : Workload) (c : SchedClass ω) : List Turn → List (Operation ω)
  | [] => []
  | t :: rest => .stop t.cpu t.ran (w.staysRunnable t) ::
    match w.endTurn c t with
    | ((.error _, _), _) => []
    | ((.ok (), w), c) => stopOperations w c rest

def operations (w : Workload) (c : SchedClass ω) : List (Operation ω) :=
  wakeOperations c w.sleepers ++
    match wakeDue c w.sleepers with
    | ((.error _, _), _) => []
    | ((.ok (), sleepers), c) =>
      let w := { w with sleepers }
      pickOperations c (List.range c.cpus) ++
        match w.pickTurns c (List.range c.cpus) with
        | (.error _, _) => []
        | (.ok [], c) => [.advanceClock (w.idleTime c.clock)]
        | (.ok turns, c) =>
          let elapsed := (turns.map (·.ran)).foldl max 0
          .advanceClock elapsed :: w.stopOperations (c.advanceClock elapsed).2 turns

def history (w : Workload) (c : SchedClass ω) : Nat → List (Operation ω)
  | 0 => []
  | n + 1 => w.history c n ++ (w.after c n).1.operations (w.after c n).2

def turns (w : Workload) (c : SchedClass ω) : List Turn :=
  match wakeDue c w.sleepers with
  | ((.error _, _), _) => []
  | ((.ok (), sleepers), c) => (({ w with sleepers }.pickTurns c (List.range c.cpus)).1.toOption).getD []

/-- A workload that was spawned, with its class: at first, after a step, whether it succeeded or not, and after
whatever was done to the class meanwhile. -/
inductive Reached (profiles : List Profile) : Workload → SchedClass ω → Prop where
  | spawned {w : Workload} {c d : SchedClass ω} (made : spawn c profiles = (.ok w, d)) : Reached profiles w d
  | stepped {w : Workload} {c : SchedClass ω} (reached : Reached profiles w c) :
      Reached profiles (w.step c).1.2 (w.step c).2
  | meanwhile {w : Workload} {c : SchedClass ω} (reached : Reached profiles w c) (op : Operation ω) :
      Reached profiles w (c.step op)

end LoadableSched.Workload
