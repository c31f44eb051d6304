import LoadableSched.Session.Basic
import LoadableSched.Workload

/-!
A run of one shipped policy under a synthetic workload, in virtual time: its session, the kernel it is
bound to, and what is left to do.
-/

namespace LoadableSched

structure Simulation where
  kernel : Kernel
  session : Session
  workload : Option Workload

namespace Simulation

def tickLength : Nanos := 1000000

def start (cpus tasks : Nat) (policy : Shipped) (t : Tunables) : Except Failure Simulation := do
  let session := Session.new "1" { HostSettings.default with cpus } t
  let image ← (Image.native policy.manifest).mapError Manifest.Fault.failure
  let (loaded, session, kernel) := session.load (Kernel.new cpus {}) image
  loaded
  let (bound, session, kernel) := session.attachScheduler kernel policy
  let _ ← bound
  let (spawned, sched) := Workload.spawn kernel.sched (Profile.mixed 1 tasks)
  let workload ← spawned.mapError ClassError.failure
  let session ← session.start
  return ⟨{ kernel with sched }, session, some workload⟩

/-- Runs the workload for one tick and yields the error that ended it. -/
def tick (s : Simulation) : Option ClassError × Simulation :=
  match s.workload with
  | none => (none, s)
  | some workload =>
    let ((outcome, workload), sched) := workload.runFor s.kernel.sched tickLength
    let s := { s with kernel := { s.kernel with sched } }
    match outcome with
    | .failed e => (some e, { s with workload := none })
    | _ => (none, { s with workload := some workload })

def report (s : Simulation) (ticks : Nat) : Option String × Simulation :=
  if ticks % s.session.tunables.interval.toNat = 0 then
    let (line, kernel) := s.session.report s.kernel
    (line, { s with kernel })
  else (none, s)

def finish (s : Simulation) : Except Failure Unit × Simulation :=
  let (closed, session, kernel) := s.session.close s.kernel
  (closed, { s with session, kernel })

end Simulation

end LoadableSched
