import LoadableSched.Session.Run

/-!
The states of a session in their order, the states that each call is meant for, and what a call answers.
Others may use the same kernel, so that the next call can meet any kernel.
-/

namespace LoadableSched

def SessionState.rank : SessionState → Nat
  | unloaded => 0
  | loaded => 1
  | attached => 2
  | running => 3
  | closed => 4

def SessionState.hasExtension : SessionState → Bool
  | unloaded => false
  | loaded => true
  | attached => true
  | running => true
  | closed => false

namespace Session

namespace Event

@[simp]
def attaches : Event → Bool
  | attachScheduler _ => true
  | attach _ => true
  | autoAttach => true
  | attachLsm => true
  | attachCgroup .. => true
  | attachXdp .. => true
  | attachFilter .. => true
  | _ => false

/-- Whether an event is a call that can be refused for the state that the session is in; a session can be
closed at any time, and what happens around it is no call. -/
@[simp]
def isRefusable : Event → Bool
  | close => false
  | report => false
  | inject _ => false
  | files _ => false
  | workload .. => false
  | _ => true

@[simp]
def suits (state : SessionState) : Event → Bool
  | load _ => state = .unloaded
  | start => state = .attached
  | run => state = .attached
  | detach _ => !state.isClosed
  | event => !event.attaches || state.canAttach

@[simp]
def usesExtension : Event → Bool
  | program _ => true
  | map .. => true
  | event => event.attaches

@[simp]
def target (state : SessionState) : Event → SessionState
  | load _ => .loaded
  | start => .running
  | run => .closed
  | close => .closed
  | event => if event.attaches then .attached else state

end Event

def answer (s : Session) (k : Kernel) : Event → Except Failure Unit
  | .load image => (s.load k image).1
  | .program name => (s.program k name).map fun _ => ()
  | @Event.map κ ν _ _ name kind => (s.map k κ ν name kind).1.map fun _ => ()
  | .attachScheduler shipped => (s.attachScheduler k shipped).1.map fun _ => ()
  | .attach name => (s.attach k name).1.map fun _ => ()
  | .autoAttach => (s.autoAttach k).1.map fun _ => ()
  | .attachLsm => (s.attachLsm k).1.map fun _ => ()
  | .attachCgroup name cgroup => (s.attachCgroup k name cgroup).1.map fun _ => ()
  | .attachXdp name ifindexes => (s.attachXdp k name ifindexes).1.map fun _ => ()
  | .attachFilter name side => (s.attachFilter k name side).1.map fun _ => ()
  | .detach h => (s.detach k h).1
  | .start => s.start.map fun _ => ()
  | .run => (s.run k).1
  | .close => (s.close k).1
  | .report => .ok ()
  | .inject _ => .ok ()
  | .files _ => .ok ()
  | .workload .. => .ok ()

def refuses (s : Session) (event : Event) : Bool :=
  !event.suits s.state || event.usesExtension && s.extension.isNone

/-- A session after events that each meet a kernel as others left it. -/
def meets (s : Session) : List (Kernel × Event) → Session
  | [] => s
  | (k, event) :: rest => (s.after k event).1.meets rest

end Session

end LoadableSched
