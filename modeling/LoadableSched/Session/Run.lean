import LoadableSched.Class.Run
import LoadableSched.Session.Basic

/-!
Runs of one session: the calls that its owner can make, in any order and with any outcome, and between
them what happens to the host around it.
-/

namespace LoadableSched

namespace Session

/-- What is done to a session or around it. To drop a session is to close it, and a run that lasts is a
start, reports, and a close. -/
inductive Event : Type 1 where
  | load (image : Image)
  | program (name : String)
  | map (κ ν : Type) [Word κ] [Word ν] (name : String) (kind : MapKind)
  | attachScheduler (shipped : Shipped)
  | attach (name : String)
  | autoAttach
  | attachLsm
  | attachCgroup (name cgroup : String)
  | attachXdp (name : String) (ifindexes : List IfIndex)
  | attachFilter (name : String) (side : Side)
  | detach (h : Holding)
  | start
  | report
  | run
  | close
  | inject (injection : Injection)
  | files (files : FileTree)
  /-- The workload goes on; nobody else binds a scheduler. -/
  | workload (op : SchedClass.Operation Memory) (spares : op.SparesPolicy)

def after (s : Session) (k : Kernel) : Event → Session × Kernel
  | .load image => (s.load k image).2
  | .program _ => (s, k)
  | @Event.map κ ν _ _ name kind => ((s.map k κ ν name kind).2, k)
  | .attachScheduler shipped => (s.attachScheduler k shipped).2
  | .attach name => (s.attach k name).2
  | .autoAttach => (s.autoAttach k).2
  | .attachLsm => (s.attachLsm k).2
  | .attachCgroup name cgroup => (s.attachCgroup k name cgroup).2
  | .attachXdp name ifindexes => (s.attachXdp k name ifindexes).2
  | .attachFilter name side => (s.attachFilter k name side).2
  | .detach h => (s.detach k h).2
  | .start => (s.start.toOption.getD s, k)
  | .report => (s, (s.report k).2)
  | .run => (s.run k).2
  | .close => (s.close k).2
  | .inject injection => (s, k.inject injection)
  | .files files => (s, { k with files })
  | .workload op _ => (s, { k with sched := k.sched.step op })

def afterAll (s : Session) (k : Kernel) : List Event → Session × Kernel
  | [] => (s, k)
  | event :: rest => afterAll (s.after k event).1 (s.after k event).2 rest

end Session

end LoadableSched
