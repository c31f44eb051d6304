import LoadableSched.Host
import LoadableSched.Session.Run

/-!
Runs of a host: any number of sessions whose operations come in any order, extensions and schedulers
that are brought to the kernel without a session, and the workload on the scheduling class.
-/

namespace LoadableSched

namespace Host

inductive Event : Type 1 where
  | openSession (id : String) (t : Tunables)
  | session (i : Nat) (event : Session.Event)
  | drop (i : Nat)
  | load (image : Image)
  /-- A scheduler is bound through a map, whoever the map belongs to. -/
  | bind (map : MapId) (policy : Policy Memory)
  | unbind (link : LinkId)
  | schedule (op : SchedClass.Operation Memory)

def after (h : Host) : Event → Host
  | .openSession id t => (h.openSession id t).2
  | .session i event =>
    match h.session? i with
    | none => h
    | some s => { h with kernel := (s.after h.kernel event).2 }.setSession i (s.after h.kernel event).1
  | .drop i => (h.dropSession i).2
  | .load image => (h.load image).2
  | .bind map policy => { h with kernel := (h.kernel.attachStructOps map policy).2 }
  | .unbind link => { h with kernel := (h.kernel.destroyLink link).toOption.getD h.kernel }
  | .schedule op => { h with kernel := { h.kernel with sched := h.kernel.sched.step op } }

def afterAll (h : Host) : List Event → Host
  | [] => h
  | event :: rest => (h.after event).afterAll rest

theorem afterAll_append (h : Host) (early late : List Event) :
    h.afterAll (early ++ late) = (h.afterAll early).afterAll late := by
  induction early generalizing h with
  | nil => rfl
  | cons event rest ih => exact ih (h.after event)

end Host

end LoadableSched
