import LoadableSched.Proofs.Kernel.Numbering
import LoadableSched.Proofs.Session.Detaching

/-!
Attachments that outlast their object. An object is closed with its programs and maps, but whatever runs
one of the programs stays where it is, and after a session that is what the kernel refused to give up.
-/

namespace LoadableSched

variable {s : Session} {k : Kernel} {a : Resource}

/-- What is attached runs a program of an object, or binds a scheduler through one of its maps. -/
def Occupant.RefersTo (o : KernelObject) : Occupant → Prop
  | link (.program p) => p ∈ o.programs.values
  | link (.cgroup p) => p ∈ o.programs.values
  | link (.structOps m) => m ∈ o.maps.values
  | program p => p ∈ o.programs.values
  | descriptor _ => False

def Kernel.RidOf (k : Kernel) (o : KernelObject) : Prop :=
  ∀ a v, k.occupant? a = some v → ¬ v.RefersTo o

structure Kernel.Abandons (k k' : Kernel) (id : ObjectId) (o : KernelObject) : Prop where
  object : k'.objects.get? id = none
  programs : ∀ p ∈ o.programs.values, k'.programs.get? p = none
  maps : ∀ m ∈ o.maps.values, k'.maps.get? m = none
  occupant : ∀ a, k'.occupant? a = k.occupant? a

theorem Kernel.closeObject_abandons {id : ObjectId} {o : KernelObject}
    (there : k.objects.get? id = some o) : ∃ k', k.closeObject id = .ok k' ∧ k.Abandons k' id o := by
  refine ⟨_, closeObject_there there, ?_, fun p member => Table.get?_foldl_erase_of_mem member _,
    fun m member => Table.get?_foldl_erase_of_mem member _, fun a => by cases a <;> rfl⟩
  simp only [log, Table.get?_erase, if_true]

namespace Belonging

theorem attempts_spare (refused : k.refuses a = true) (bs : List Belonging) :
    (attempts k bs).2.occupant? a = k.occupant? a := by
  refine (attempts_keep (P := fun k' => k'.refuses a = true ∧ k'.occupant? a = k.occupant? a)
    (fun b _ k₁ k₂ made before => ?_) ⟨refused, rfl⟩).2
  obtain ⟨still, same⟩ := before
  cases b with
  | holding h =>
    have released := holding_release made
    have clears := Holding.releaseIn_clears released
    have other : h.resource? ≠ some a := fun is => by
      cases released.symm.trans (Holding.releaseIn_of_refuses still is)
    rw [clears.refuses, clears.occupant, if_neg other]
    exact ⟨still, same⟩
  | extension e =>
    obtain ⟨_, rfl⟩ | ⟨_, _, closed⟩ := extension_release made
    · exact ⟨still, same⟩
    · have adds := (Kernel.closeObject_made closed).1
      rw [adds.refuses, adds.occupant]
      exact ⟨still, same⟩

end Belonging

namespace Session

theorem close_leaves (way : s.UnderWay k) (a : Resource) :
    (s.close k).2.2.occupant? a = if k.refuses a then k.occupant? a else none := by
  split
  · rename_i refused
    rw [close_eq way.state k]
    exact Belonging.attempts_spare refused s.due
  · rename_i granted
    refine Option.eq_none_iff_forall_ne_some.mpr fun v present => ?_
    exact granted ((close_ends way).refused a v present)

/-- To close an object succeeds and takes its programs and maps along, but nothing that is attached: the
kernel is rid of the object exactly if it was before. A session gives back its attachments first and then
closes its object, whether all could be given back or not. So the kernel is rid of the object after the
session exactly if nothing that the kernel refuses to give up refers to it. -/
theorem attachments_outlast_objects {id : ObjectId} {o : KernelObject}
    (there : k.objects.get? id = some o) :
    (∃ k', k.closeObject id = .ok k' ∧ k.Abandons k' id o ∧ (k'.RidOf o ↔ k.RidOf o)) ∧
    ∀ s : Session, s.Reached k → s.state ≠ .closed →
      let closed := (s.close k).2.2
      closed.objects.get? id = none ∧
      (∀ a, closed.occupant? a = if k.refuses a then k.occupant? a else none) ∧
      (closed.RidOf o ↔ ∀ a v, k.refuses a = true → k.occupant? a = some v → ¬ v.RefersTo o) := by
  constructor
  · obtain ⟨k', made, abandons⟩ := Kernel.closeObject_abandons there
    refine ⟨k', made, abandons, ?_⟩
    unfold Kernel.RidOf
    simp only [abandons.occupant]
  · intro s reached unclosed closed
    have way := reached.underWay unclosed
    have left : ∀ a, closed.occupant? a = _ := close_leaves way
    have owned := Kernel.owned_none_iff.mp (close_ends way).owned id
    refine ⟨?_, left, ?_⟩
    · rwa [Table.contains_eq, Option.isSome_eq_false_iff, Option.isNone_iff_eq_none] at owned
    · simp only [Kernel.RidOf, left, Option.ite_none_right_eq_some, and_imp]

/-- Where nothing is refused, the kernel is rid of the object after the session, but not if the object alone
is closed. -/
theorem link_goes_with_session :
    let host := Host.new 1 {} [] .standard .default
    let events : List Event := [.load probeImage, .attach "probe"]
    let now := (host.newSession "probing" .default).afterAll host.kernel events
    ∃ o, now.2.objects.get? ⟨1⟩ = some o ∧ now.1.Reached now.2 ∧ now.1.state ≠ .closed ∧
      (∃ v, now.2.occupant? (.link ⟨3⟩) = some v ∧ v.RefersTo o) ∧
      (∃ k', now.2.closeObject ⟨1⟩ = .ok k' ∧ ¬ k'.RidOf o) ∧
      (now.1.close now.2).2.2.objects.get? ⟨1⟩ = none ∧ (now.1.close now.2).2.2.RidOf o := by
  intro host events now
  have reached : now.1.Reached now.2 :=
    reached_afterAll 1 {} [] .standard .default "probing" .default events
  have unclosed : now.1.state ≠ .closed := by decide +kernel
  have faultless : now.2.faults = {} := by decide +kernel
  have present : (now.2.objects.get? ⟨1⟩).isSome = true := by decide +kernel
  have programs : (now.2.objects.get? ⟨1⟩).map (·.programs.values) = some [⟨2⟩] := by decide +kernel
  have occupied : now.2.occupant? (.link ⟨3⟩) = some (.link (.program ⟨2⟩)) := by decide +kernel
  clear_value now
  obtain ⟨o, there⟩ := Option.isSome_iff_exists.mp present
  have refers : (Occupant.link (.program ⟨2⟩)).RefersTo o := by
    have own : o.programs.values = [⟨2⟩] := by simpa [there] using programs
    simp [Occupant.RefersTo, own]
  have granted : ∀ a, now.2.refuses a = false := fun a => by
    cases a <;> simp [Kernel.refuses, faultless]
  obtain ⟨⟨k', made, _, rid⟩, closed⟩ := attachments_outlast_objects there
  obtain ⟨gone, _, ridOf⟩ := closed now.1 reached unclosed
  refine ⟨o, there, reached, unclosed, ⟨_, occupied, refers⟩, ⟨k', made, fun free => ?_⟩, gone, ?_⟩
  · exact rid.mp free _ _ occupied refers
  · exact ridOf.mpr fun a v refused => by simp [granted a] at refused

/-- A link that the kernel refuses to give up stays, although its program is gone with the object. -/
theorem link_outlasts_object :
    let host := Host.new 1 {} [] .standard .default
    let events : List Event := [.load probeImage, .attach "probe", .inject (.linkDestroy ⟨3⟩)]
    let now := (host.newSession "probing" .default).afterAll host.kernel events
    let closed := (now.1.close now.2).2.2
    (now.2.objects.get? ⟨1⟩).map (·.programs.values) = some [⟨2⟩] ∧
      (now.2.closeObject ⟨1⟩).toOption.map (·.occupant? (.link ⟨3⟩)) =
        some (some (.link (.program ⟨2⟩))) ∧
      closed.releases = [.object ⟨1⟩] ∧ closed.objects.contains ⟨1⟩ = false ∧
      closed.programs.contains ⟨2⟩ = false ∧
      closed.occupant? (.link ⟨3⟩) = some (.link (.program ⟨2⟩)) := by
  decide +kernel

end Session

end LoadableSched
