import LoadableSched.Proofs.Class.Installing
import LoadableSched.Proofs.Session.Ordering

/-!
The bindings of schedulers and the policy that is active. Whatever a session does, either it binds a
scheduler where none was active, or it leaves the policy alone, or bindings go and no policy is left: the
class is not asked whose policy it is that a binding takes along.
-/

namespace LoadableSched

variable {may : IfIndex → Prop} {own : ProgramId → Prop} {k k' k'' : Kernel}

namespace Kernel

def Binds (k : Kernel) (id : LinkId) : Prop := ∃ map, k.occupant? (.link id) = some (.link (.structOps map))

/-- From `k` to `k'` bindings go at most, and with any of them the policy; else the policy stays. -/
structure Unbinds (k k' : Kernel) : Prop where
  fewer : ∀ id, k'.Binds id → k.Binds id
  kept : (∀ id, k.Binds id → k'.Binds id) → k'.sched.policy = k.sched.policy
  lost : ∀ id, k.Binds id → ¬ k'.Binds id → k'.sched.policy = none

theorem Unbinds.refl (k : Kernel) : k.Unbinds k :=
  ⟨fun _ bound => bound, fun _ => rfl, fun _ bound gone => absurd bound gone⟩

theorem Unbinds.of_same (bound : ∀ id, k'.Binds id ↔ k.Binds id)
    (policy : k'.sched.policy = k.sched.policy) : k.Unbinds k' :=
  ⟨fun id => (bound id).mp, fun _ => policy, fun id before gone => absurd ((bound id).mpr before) gone⟩

theorem Unbinds.of_links (links : ∀ id, k'.occupant? (.link id) = k.occupant? (.link id))
    (policy : k'.sched.policy = k.sched.policy) : k.Unbinds k' :=
  .of_same (fun id => by simp only [Binds, links]) policy

theorem Unbinds.policy (unbinds : k.Unbinds k') :
    k'.sched.policy = none ∨ k'.sched.policy = k.sched.policy ∧ ∀ id, k.Binds id → k'.Binds id := by
  by_cases all : ∀ id, k.Binds id → k'.Binds id
  · exact .inr ⟨unbinds.kept all, all⟩
  · obtain ⟨id, gone⟩ := not_forall.mp all
    obtain ⟨before, gone⟩ := Classical.not_imp.mp gone
    exact .inl (unbinds.lost id before gone)

theorem Unbinds.trans (first : k.Unbinds k') (later : k'.Unbinds k'') : k.Unbinds k'' where
  fewer id bound := first.fewer id (later.fewer id bound)
  kept all := by
    have kept := later.kept fun id bound => all id (first.fewer id bound)
    exact kept.trans (first.kept fun id bound => later.fewer id (all id bound))
  lost id before gone := by
    by_cases between : k'.Binds id
    · exact later.lost id between gone
    · rcases later.policy with none | ⟨same, _⟩
      · exact none
      · exact same.trans (first.lost id before between)

theorem Unbinds.destroyLink {id : LinkId} (made : k.destroyLink id = .ok k') : k.Unbinds k' := by
  obtain ⟨link, found, clears, ⟨⟨map, rfl⟩, removed⟩ | ⟨plain, same⟩⟩ := destroyLink_cases made
  · have gone : k'.sched.policy = none := by rw [removed, SchedClass.uninstall_policy]
    have bound : k.Binds id := ⟨map, by rw [occupant?, found]; rfl⟩
    have unbound : ¬ k'.Binds id := by
      rintro ⟨map, present⟩
      rw [clears.occupant, if_pos rfl] at present
      cases present
    refine ⟨?_, fun all => absurd (all id bound) unbound, fun _ _ _ => gone⟩
    rintro other ⟨map, present⟩
    rw [clears.occupant] at present
    split at present
    · cases present
    · exact ⟨map, present⟩
  · refine .of_same (fun other => ?_) (by rw [same])
    simp only [Binds, clears.occupant, Option.some.injEq, Resource.link.injEq]
    split
    · rename_i here
      subst here
      simp [occupant?, found, plain]
    · rfl

theorem Unbinds.release {h : Holding} (made : h.releaseIn k = .ok k') : k.Unbinds k' := by
  -- Only a link can be a binding, so the other places do not matter.
  have other : ∀ a, k.Clears k' a ∧ k'.sched = k.sched → (∀ id, a ≠ some (.link id)) →
      k.Unbinds k' := by
    rintro a ⟨clears, same⟩ apart
    refine .of_links (fun id => ?_) (by rw [same])
    rw [clears.occupant, if_neg (apart id)]
  cases h with
  | link id | structOps id => exact .destroyLink made
  | xdp => exact other _ (detachXdp_clears made) (by simp)
  | filter => exact other _ (detachFilter_clears made) (by simp)
  | descriptor => exact other _ (closeDescriptor_clears made) (by simp)
  | map => exact other _ (closeMap_clears made) (by simp)

theorem Unbinds.act {x y : Holdings × Kernel} (numbered : x.2.Numbered) (act : Act own may x y) :
    x.2.Unbinds y.2 := by
  obtain ⟨s, k⟩ := x
  obtain ⟨s', k'⟩ := y
  have policy : k'.sched.policy = k.sched.policy := by rw [act.sustains.2]
  cases act.effect numbered with
  | takes takes is fits runs other =>
    rename_i h a v
    refine .of_same (fun id => ?_) policy
    simp only [Binds, takes.occupant, Option.some.injEq]
    split
    · rename_i same
      rw [takes.free _ (congrArg some same)]
      -- What is taken up is no binding, because it fits a holding that is none.
      refine iff_of_false ?_ (by simp)
      rintro ⟨map, present⟩
      cases Option.some.inj present
      cases h with
      | structOps => exact other rfl
      | link | xdp | filter | descriptor | map => exact fits.elim
    · rfl
  | rests rests => exact .of_links (fun id => rests.occupant _) policy
  | gives member made other => exact .release made
  | clears unheld allowed made =>
    exact .of_links (fun id => destroyQdisc_occupant made (by rintro side ⟨⟩)) policy

theorem Unbinds.refused {map : MapId} {policy : Policy Memory} {e : Errno}
    (refused : k.attachStructOps map policy = (.error e, k')) : k.Unbinds k' := by
  rcases attachStructOps_refused refused with same | ⟨reason, failed, same⟩
  · exact same ▸ .refl k
  · subst same
    refine .of_links (fun id => rfl) ?_
    obtain ⟨_, _, made, _⟩ | ⟨free, _, d, _, made, _⟩ | ⟨_, _, _, made, _⟩ :=
      k.sched.install_cases policy
    · rw [made]
    · rw [made, free]
      exact (SchedClass.requeueOrphans_retains { d with policy := none }).policy
    · rw [made] at failed
      cases failed

theorem Unbinds.adds (adds : k.Adds k') : k.Unbinds k' :=
  .of_links (fun _ => adds.occupant _) adds.kept

theorem Unbinds.attempts (k : Kernel) (bs : List Belonging) : k.Unbinds (Belonging.attempts k bs).2 := by
  refine Belonging.attempts_keep (P := k.Unbinds) (fun b _ k₁ k₂ made before => before.trans ?_) (.refl k)
  cases b with
  | holding h => exact .release (Belonging.holding_release made)
  | extension e =>
    obtain ⟨_, rfl⟩ | ⟨object, _, closed⟩ := Belonging.extension_release made
    · exact .refl _
    · exact .adds (closeObject_made closed).1

/-- From `k` to `k'` a scheduler is bound where no policy was active; what becomes of its policy is up to
the class. -/
structure Installs (k k' : Kernel) (link : LinkId) : Prop where
  bound : ∀ id, k'.Binds id ↔ id = link ∨ k.Binds id
  new : ¬ k.Binds link
  free : k.sched.policy = none

theorem Installs.made (numbered : k.Numbered) {map : MapId} {policy : Policy Memory} {link : LinkId}
    (made : k.attachStructOps map policy = (.ok link, k')) : k.Installs k' link := by
  obtain ⟨gains, _⟩ := attachStructOps_gains numbered made
  obtain ⟨installed, _⟩ := attachStructOps_made made
  have new : ¬ k.Binds link := by
    rintro ⟨map, present⟩
    rw [gains.free _ rfl] at present
    cases present
  refine ⟨fun id => ?_, new, ((k.sched.install_ok_iff policy).mp installed).1⟩
  simp only [Binds, gains.occupant, Option.some.injEq, Resource.link.injEq]
  by_cases same : link = id
  · simp [same]
  · simp [same, Ne.symm same]

end Kernel

namespace Session

variable {s : Session}

theorem Move.unbinds {x y : Session × Kernel} (move : Move may x y) (numbered : x.2.Numbered) :
    x.2.Unbinds y.2 := by
  cases move with
  | act loaded act => exact .act numbered act
  | note | enter => exact .refl _
  | memory memory => exact .of_links (fun _ => rfl) rfl
  | refuseBinding conforms refused => exact .refused refused
  | release member made => exact .release made
  | load unloaded made => exact .adds (Extension.load_made made).1
  | refuseLoad unloaded refused => exact .adds (Extension.load_refused refused).1
  | close unclosed => exact .attempts _ _

theorem Moves.unbinds {x y : Session × Kernel} (moves : Moves may x y) (orderly : x.2.Orderly) :
    x.2.Unbinds y.2 := by
  induction moves with
  | refl => exact .refl _
  | tail before move ih => exact ih.trans (move.unbinds (Moves.orderly before orderly).numbered)

theorem after_binds (orderly : k.Orderly) (event : Event) (calm : ∀ op spares, event ≠ .workload op spares) :
    k.Unbinds (s.after k event).2 ∨ ∃ link, k.Installs (s.after k event).2 link := by
  have course := s.after_course k event
  generalize s.after k event = after at course
  cases course with
  | moves moves => exact .inl (moves.unbinds orderly)
  | binds moves loaded conforms made =>
    have numbered := (Moves.orderly moves orderly).numbered
    have installs := Kernel.Installs.made numbered made
    exact .inr ⟨_, installs.bound, installs.new, installs.free⟩
  | around around alike quiet =>
    exact .inl (.of_links (fun _ => around.occupant _) (by rw [quiet calm]))

end Session

end LoadableSched
