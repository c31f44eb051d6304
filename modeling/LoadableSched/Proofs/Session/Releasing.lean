import LoadableSched.Proofs.Session.Tracking

/-!
The ways back: each clears the place of its holding and nothing else, and only a fault that was injected
or an empty place makes the kernel refuse. At the end of a session every holding is tried, so that what
stays is what the kernel refused.
-/

namespace LoadableSched

variable {s : Holdings} {k k' k'' : Kernel} {h : Holding} {a : Resource} {e : Errno}

namespace Kernel

/-! What each way back makes of the kernel, and when it is refused. -/

theorem destroyLink_made {id : LinkId} (made : k.destroyLink id = .ok k') :
    ∃ link, k.links.get? id = some link ∧
      ((∃ map, link = .structOps map) ∧
          k' = { k with links := k.links.erase id, sched := k.sched.uninstall.2 }.log (.structOps id) ∨
        (∀ map, link ≠ .structOps map) ∧
          k' = { k with links := k.links.erase id }.log (.link id)) := by
  unfold destroyLink at made
  split at made
  · cases made
  · split at made
    · cases made
    · rename_i link found
      refine ⟨link, found, ?_⟩
      cases link with
      | structOps map => exact .inl ⟨⟨map, rfl⟩, (Except.ok.inj made).symm⟩
      | program | cgroup => exact .inr ⟨by simp, (Except.ok.inj made).symm⟩

theorem destroyLink_refused {id : LinkId} (refused : k.destroyLink id = .error e) :
    k.refuses (.link id) = true ∨ k.occupant? (.link id) = none := by
  unfold destroyLink at refused
  split at refused
  · rename_i fault
    exact .inl fault
  · split at refused
    · rename_i absent
      exact .inr (by rw [occupant?, absent]; rfl)
    · split at refused <;> cases refused

theorem detachXdp_made {ifindex : IfIndex} (made : k.detachXdp ifindex = .ok k') :
    k' = { k with xdp := k.xdp.erase ifindex }.log (.xdp ifindex) := by
  unfold detachXdp at made
  split at made
  · cases made
  · split at made
    · cases made
    · exact (Except.ok.inj made).symm

theorem detachXdp_refused {ifindex : IfIndex} (refused : k.detachXdp ifindex = .error e) :
    k.refuses (.xdp ifindex) = true ∨ k.occupant? (.xdp ifindex) = none := by
  unfold detachXdp at refused
  split at refused
  · rename_i fault
    exact .inl fault
  · split at refused
    · rename_i absent
      have none : k.xdp.get? ifindex = none := by simpa [Table.contains_eq] using absent
      exact .inr (by rw [occupant?, none]; rfl)
    · cases refused

theorem detachFilter_made {side : Side} (made : k.detachFilter side = .ok k') :
    k' = { k with filters := k.filters.erase side }.log (.tc side) := by
  unfold detachFilter at made
  split at made
  · cases made
  · exact (Except.ok.inj made).symm

theorem detachFilter_refused {side : Side} (refused : k.detachFilter side = .error e) :
    k.occupant? (.filter side) = none := by
  unfold detachFilter at refused
  split at refused
  · rename_i absent
    have none : k.filters.get? side = none := by simpa [Table.contains_eq] using absent
    rw [occupant?, none]
    rfl
  · cases refused

theorem closeDescriptor_made {fd : Descriptor} (made : k.closeDescriptor fd = .ok k') :
    k' = { k with descriptors := k.descriptors.erase fd }.log (.descriptor fd) := by
  unfold closeDescriptor dropDescriptor at made
  split at made
  · cases made
  · rename_i dropped
    cases Except.ok.inj made
    split at dropped
    · cases Except.ok.inj dropped
      rfl
    · cases dropped

theorem closeDescriptor_refused {fd : Descriptor} (refused : k.closeDescriptor fd = .error e) :
    k.occupant? (.descriptor fd) = none := by
  unfold closeDescriptor dropDescriptor at refused
  by_cases there : k.descriptors.contains fd = true
  · simp only [if_pos there] at refused
    cases refused
  · have none : k.descriptors.get? fd = none := by simpa [Table.contains_eq] using there
    rw [occupant?, none]
    rfl

theorem closeMap_made {id : MapId} (made : k.closeMap id = .ok k') :
    k' = { k with maps := k.maps.modify id fun m => { m with isOpen := false } }.log (.map id) := by
  unfold closeMap at made
  split at made
  · cases made
  · split at made
    · exact (Except.ok.inj made).symm
    · cases made

/-! What changes on the way back. -/

/-- From `k` to `k'` a place is cleared, and nothing else changes that the end of a session depends on. -/
structure Clears (k k' : Kernel) (a : Option Resource) : Prop extends k.Loses k' a, k.Spares k'

theorem destroyLink_cases {id : LinkId} (made : k.destroyLink id = .ok k') :
    ∃ link, k.links.get? id = some link ∧ k.Clears k' (some (.link id)) ∧
      ((∃ map, link = .structOps map) ∧ k'.sched = k.sched.uninstall.2 ∨
        (∀ map, link ≠ .structOps map) ∧ k'.sched = k.sched) := by
  have occupant : ∀ b, ({ k with links := k.links.erase id } : Kernel).occupant? b =
      if some (Resource.link id) = some b then none else k.occupant? b := by
    intro b
    cases b with
    | link other =>
      simp only [occupant?, Table.map_get?_erase, Option.some.injEq, Resource.link.injEq]
    | xdp | filter | descriptor => rfl
  obtain ⟨link, found, ⟨binds, rfl⟩ | ⟨other, rfl⟩⟩ := destroyLink_made made
  · exact ⟨link, found, ⟨⟨occupant, rfl⟩, ⟨fun _ => rfl, rfl⟩⟩, .inl ⟨binds, rfl⟩⟩
  · exact ⟨link, found, ⟨⟨occupant, rfl⟩, ⟨fun _ => rfl, rfl⟩⟩, .inr ⟨other, rfl⟩⟩

theorem detachXdp_clears {ifindex : IfIndex} (made : k.detachXdp ifindex = .ok k') :
    k.Clears k' (some (.xdp ifindex)) ∧ k'.sched = k.sched := by
  cases detachXdp_made made
  refine ⟨⟨⟨?_, rfl⟩, ⟨fun _ => rfl, rfl⟩⟩, rfl⟩
  intro b
  cases b with
  | xdp other =>
    simp only [occupant?, log, Table.map_get?_erase, Option.some.injEq, Resource.xdp.injEq]
  | link | filter | descriptor => rfl

theorem detachFilter_clears {side : Side} (made : k.detachFilter side = .ok k') :
    k.Clears k' (some (.filter side)) ∧ k'.sched = k.sched := by
  cases detachFilter_made made
  refine ⟨⟨⟨?_, rfl⟩, ⟨fun _ => rfl, rfl⟩⟩, rfl⟩
  intro b
  cases b with
  | filter other =>
    simp only [occupant?, log, Table.map_get?_erase, Option.some.injEq, Resource.filter.injEq]
  | link | xdp | descriptor => rfl

theorem closeDescriptor_clears {fd : Descriptor} (made : k.closeDescriptor fd = .ok k') :
    k.Clears k' (some (.descriptor fd)) ∧ k'.sched = k.sched := by
  cases closeDescriptor_made made
  refine ⟨⟨⟨?_, rfl⟩, ⟨fun _ => rfl, rfl⟩⟩, rfl⟩
  intro b
  cases b with
  | descriptor other =>
    simp only [occupant?, log, Table.map_get?_erase, Option.some.injEq, Resource.descriptor.injEq]
  | link | xdp | filter => rfl

theorem closeMap_clears {id : MapId} (made : k.closeMap id = .ok k') :
    k.Clears k' none ∧ k'.sched = k.sched := by
  cases closeMap_made made
  exact ⟨⟨⟨fun b => by cases b <;> rfl, rfl⟩, ⟨fun _ => rfl, rfl⟩⟩, rfl⟩

end Kernel

namespace Holding

theorem releaseIn_clears (made : h.releaseIn k = .ok k') : k.Clears k' h.resource? := by
  cases h with
  | link id | structOps id =>
    obtain ⟨_, _, clears, _⟩ := Kernel.destroyLink_cases made
    exact clears
  | xdp => exact (Kernel.detachXdp_clears made).1
  | filter => exact (Kernel.detachFilter_clears made).1
  | descriptor => exact (Kernel.closeDescriptor_clears made).1
  | map => exact (Kernel.closeMap_clears made).1

theorem releaseIn_refused (refused : h.releaseIn k = .error e) (is : h.resource? = some a) :
    k.refuses a = true ∨ k.occupant? a = none := by
  cases h with
  | link id | structOps id =>
    cases Option.some.inj is
    exact Kernel.destroyLink_refused refused
  | xdp =>
    cases Option.some.inj is
    exact Kernel.detachXdp_refused refused
  | filter =>
    cases Option.some.inj is
    exact .inr (Kernel.detachFilter_refused refused)
  | descriptor =>
    cases Option.some.inj is
    exact .inr (Kernel.closeDescriptor_refused refused)
  | map => cases is

theorem releaseIn_of_refuses (refuses : k.refuses a = true) (is : h.resource? = some a) :
    h.releaseIn k = .error .inputOutput := by
  cases h with
  | link id | structOps id =>
    cases Option.some.inj is
    exact if_pos refuses
  | xdp ifindex =>
    cases Option.some.inj is
    exact if_pos refuses
  | filter | descriptor =>
    cases Option.some.inj is
    cases refuses
  | map => cases is

theorem releaseIn_sched (fits : ∀ a, h.resource? = some a → ∃ v, k.occupant? a = some v ∧ h.Fits v)
    (made : h.releaseIn k = .ok k') :
    h.stage = .structOps ∧ k'.sched = k.sched.uninstall.2 ∨
      h.stage ≠ .structOps ∧ k'.sched = k.sched := by
  cases h with
  | link id program =>
    obtain ⟨link, found, _, ⟨⟨map, rfl⟩, _⟩ | ⟨_, same⟩⟩ := Kernel.destroyLink_cases made
    · obtain ⟨v, present, fits⟩ := fits _ rfl
      rw [Kernel.occupant?, found] at present
      cases Option.some.inj present
      exact fits.elim
    · exact .inr ⟨by simp [stage], same⟩
  | structOps id map =>
    obtain ⟨link, found, _, ⟨_, removed⟩ | ⟨other, _⟩⟩ := Kernel.destroyLink_cases made
    · exact .inl ⟨rfl, removed⟩
    · obtain ⟨v, present, fits⟩ := fits _ rfl
      rw [Kernel.occupant?, found] at present
      cases Option.some.inj present
      cases link with
      | structOps map => exact absurd rfl (other map)
      | program | cgroup => exact fits.elim
  | xdp => exact .inr ⟨by simp [stage], (Kernel.detachXdp_clears made).2⟩
  | filter => exact .inr ⟨by simp [stage], (Kernel.detachFilter_clears made).2⟩
  | descriptor => exact .inr ⟨by simp [stage], (Kernel.closeDescriptor_clears made).2⟩
  | map => exact .inr ⟨by simp [stage], (Kernel.closeMap_clears made).2⟩

theorem releaseIn_maps (made : h.releaseIn k = .ok k') :
    (∃ id name, h = .map id name ∧
        k' = { k with maps := k.maps.modify id fun m => { m with isOpen := false } }.log (.map id)) ∨
      (∀ id name, h ≠ .map id name) ∧ k.Sustains k' := by
  cases h with
  | link id | structOps id =>
    obtain ⟨_, _, ⟨_, rfl⟩ | ⟨_, rfl⟩⟩ := Kernel.destroyLink_made made
    all_goals exact .inr ⟨by simp, rfl, rfl, fun id => by simp [Kernel.log]⟩
  | xdp =>
    cases Kernel.detachXdp_made made
    exact .inr ⟨by simp, rfl, rfl, fun id => by simp [Kernel.log]⟩
  | filter =>
    cases Kernel.detachFilter_made made
    exact .inr ⟨by simp, rfl, rfl, fun id => by simp [Kernel.log]⟩
  | descriptor =>
    cases Kernel.closeDescriptor_made made
    exact .inr ⟨by simp, rfl, rfl, fun id => by simp [Kernel.log]⟩
  | map id name =>
    cases Kernel.closeMap_made made
    exact .inl ⟨id, name, rfl, rfl⟩

theorem releaseIn_rest (made : h.releaseIn k = .ok k') :
    k'.objects = k.objects ∧ k'.qdiscs = k.qdiscs := by
  cases h with
  | link id | structOps id =>
    obtain ⟨_, _, ⟨_, rfl⟩ | ⟨_, rfl⟩⟩ := Kernel.destroyLink_made made <;> exact ⟨rfl, rfl⟩
  | xdp =>
    cases Kernel.detachXdp_made made
    exact ⟨rfl, rfl⟩
  | filter =>
    cases Kernel.detachFilter_made made
    exact ⟨rfl, rfl⟩
  | descriptor =>
    cases Kernel.closeDescriptor_made made
    exact ⟨rfl, rfl⟩
  | map =>
    cases Kernel.closeMap_made made
    exact ⟨rfl, rfl⟩

end Holding

theorem Holdings.detach_made {s' : Holdings} (made : s.detach k h = .ok (s', k')) :
    h ∈ s.items ∧ h.releaseIn k = .ok k' ∧ s' = s.eraseLast h := by
  unfold Holdings.detach Holding.release at made
  split at made
  · rename_i held
    split at made
    · cases made
    · rename_i released
      cases Except.ok.inj made
      split at released
      · rename_i ok
        cases Except.ok.inj released
        exact ⟨Holdings.contains_iff_mem.mp held, ok, rfl⟩
      · cases released
  · cases made

theorem Holdings.Tracks.release (tracks : s.Tracks k) (member : h ∈ s.items)
    (made : h.releaseIn k = .ok k') : (s.eraseLast h).Tracks k' ∧ k.Spares k' := by
  have clears := Holding.releaseIn_clears made
  refine ⟨?_, clears.toSpares⟩
  rcases Holding.releaseIn_sched (tracks.there h member) made with ⟨stage, removed⟩ | ⟨stage, same⟩
  · have steady := tracks.steady.step .uninstall trivial
    refine tracks.drop member clears.toLoses ?_ (removed ▸ steady)
    rw [removed, (SchedClass.uninstall_stands tracks.steady.agrees tracks.steady.healthy).2]
    simp [stage]
  · refine tracks.drop member clears.toLoses ?_ (same ▸ tracks.steady)
    simp [same, stage]

/-! Releasing everything. -/

namespace Kernel

/-- A policy stays no longer than the link of its scheduler. -/
structure Bound (k : Kernel) : Prop where
  steady : k.sched.Steady
  link : k.sched.policy.isSome → ∃ id map, k.occupant? (.link id) = some (.link (.structOps map))

/-- From `k` to `k'` places and objects are at most given up. -/
structure Fades (k k' : Kernel) : Prop where
  occupant : ∀ a v, k'.occupant? a = some v → k.occupant? a = some v
  objects : ∀ id, k'.objects.contains id = true → k.objects.contains id = true
  refuses : k'.refuses = k.refuses
  bound : k.Bound → k'.Bound

theorem Fades.refl (k : Kernel) : k.Fades k := ⟨fun _ _ => id, fun _ => id, rfl, id⟩

theorem Fades.trans (first : k.Fades k') (later : k'.Fades k'') : k.Fades k'' where
  occupant a v present := first.occupant a v (later.occupant a v present)
  objects id present := first.objects id (later.objects id present)
  refuses := later.refuses.trans first.refuses
  bound before := later.bound (first.bound before)

theorem Fades.vacant (fades : k.Fades k') {a : Resource} (free : k.occupant? a = none) :
    k'.occupant? a = none := by
  refine Option.eq_none_iff_forall_ne_some.mpr fun v present => ?_
  cases free.symm.trans (fades.occupant a v present)

theorem Alike.bound (alike : k.Alike k') (bound : k.Bound) : k'.Bound where
  steady := alike.steady bound.steady
  link active := by
    obtain ⟨id, map, present⟩ := bound.link (alike.policy ▸ active)
    exact ⟨id, map, (alike.occupant _).trans present⟩

theorem Clears.fades {a : Option Resource} (clears : k.Clears k' a) (bound : k.Bound → k'.Bound) :
    k.Fades k' where
  occupant b v present := by
    rw [clears.occupant] at present
    split at present
    · cases present
    · exact present
  objects id present := (clears.objects id).symm.trans present
  refuses := clears.refuses
  bound := bound

theorem Clears.bound {a : Option Resource} (clears : k.Clears k' a) (same : k'.sched = k.sched)
    (other : ∀ id map, a = some (.link id) → k.occupant? (.link id) ≠ some (.link (.structOps map)))
    (bound : k.Bound) : k'.Bound where
  steady := same ▸ bound.steady
  link active := by
    rw [same] at active
    obtain ⟨id, map, present⟩ := bound.link active
    refine ⟨id, map, ?_⟩
    rw [clears.occupant, if_neg fun is => other id map is present]
    exact present

theorem destroyLink_bound {id : LinkId} (made : k.destroyLink id = .ok k') (bound : k.Bound) :
    k'.Bound := by
  obtain ⟨link, found, clears, ⟨_, removed⟩ | ⟨other, same⟩⟩ := destroyLink_cases made
  · have steady := bound.steady.step .uninstall trivial
    refine ⟨removed ▸ steady, fun active => ?_⟩
    rw [removed, (SchedClass.uninstall_stands bound.steady.agrees bound.steady.healthy).2] at active
    cases active
  · refine clears.bound same ?_ bound
    rintro id map ⟨⟩ present
    rw [occupant?, found] at present
    exact other map (Occupant.link.inj (Option.some.inj present))

end Kernel

theorem Holding.releaseIn_fades (made : h.releaseIn k = .ok k') : k.Fades k' := by
  refine (releaseIn_clears made).fades fun bound => ?_
  cases h with
  | link id | structOps id => exact Kernel.destroyLink_bound made bound
  | xdp =>
    obtain ⟨clears, same⟩ := Kernel.detachXdp_clears made
    exact clears.bound same (by rintro id map ⟨⟩) bound
  | filter =>
    obtain ⟨clears, same⟩ := Kernel.detachFilter_clears made
    exact clears.bound same (by rintro id map ⟨⟩) bound
  | descriptor =>
    obtain ⟨clears, same⟩ := Kernel.closeDescriptor_clears made
    exact clears.bound same (by rintro id map ⟨⟩) bound
  | map =>
    obtain ⟨clears, same⟩ := Kernel.closeMap_clears made
    exact clears.bound same (by rintro id map ⟨⟩) bound

theorem Holding.release_cases (h : Holding) (k : Kernel) :
    (∃ k', h.release k = .ok k' ∧ h.releaseIn k = .ok k') ∨
      ∃ failure e, h.release k = .error failure ∧ h.releaseIn k = .error e := by
  unfold release
  cases h.releaseIn k with
  | ok k' => exact .inl ⟨k', rfl, rfl⟩
  | error e => exact .inr ⟨_, e, rfl, rfl⟩

namespace Holdings

def releaseEach (k : Kernel) : List Holding → (Nat × List Failure) × Kernel
  | [] => ((0, []), k)
  | h :: rest =>
    match h.release k with
    | .error e =>
      let ((released, failures), k) := releaseEach k rest
      ((released, e :: failures), k)
    | .ok k =>
      let ((released, failures), k) := releaseEach k rest
      ((released + 1, failures), k)

/-- The walk down tries the holdings of the stage that stand below, and takes them out from between the
others. They are given here in the order in which the walk meets them. -/
theorem releaseBelow_eq (stage : Stage) (met above : List Holding) (k : Kernel) (released : Nat)
    (failures : List Failure) :
    releaseBelow stage ⟨met.reverse ++ above⟩ k released failures met.length =
      let tried := releaseEach k (met.filter (·.stage = stage))
      (⟨(met.filter (·.stage ≠ stage)).reverse ++ above⟩,
        (released + tried.1.1, failures ++ tried.1.2), tried.2) := by
  induction met generalizing above k released failures with
  | nil => simp [releaseBelow, releaseEach]
  | cons h rest ih =>
    have apart : (h :: rest).reverse ++ above = rest.reverse ++ h :: above := by simp
    have here : (rest.reverse ++ h :: above)[rest.length]? = some h := by simp
    have taken : (rest.reverse ++ h :: above).eraseIdx rest.length = rest.reverse ++ above := by
      rw [List.eraseIdx_append_of_length_le (by simp)]
      simp
    rw [apart]
    simp only [List.length_cons, releaseBelow, here, taken]
    by_cases due : h.stage = stage
    · simp only [due, ne_eq, not_true, if_false, decide_true, List.filter_cons_of_pos, decide_false,
        not_false_eq_true, Bool.false_eq_true, List.filter_cons_of_neg, releaseEach]
      cases h.release k with
      | ok k₁ => simp only [ih, Nat.add_assoc, Nat.add_comm 1]
      | error failure => simp only [ih, List.append_assoc, List.singleton_append]
    · simp only [ne_eq, due, not_false_eq_true, if_true, decide_true, List.filter_cons_of_pos,
        decide_false, Bool.false_eq_true, List.filter_cons_of_neg, ih, List.reverse_cons,
        List.append_assoc, List.singleton_append]

theorem releaseStage_eq (s : Holdings) (k : Kernel) (stage : Stage) (r : Teardown) :
    let tried := releaseEach k (s.items.filter (·.stage = stage)).reverse
    (s.releaseStage k stage r).1 = ⟨s.items.filter (·.stage ≠ stage)⟩ ∧
      (s.releaseStage k stage r).2.1.failures = r.failures ++ tried.1.2 ∧
      (s.releaseStage k stage r).2.2 = tried.2 := by
  have walked := releaseBelow_eq stage s.items.reverse [] k 0 r.failures
  simp only [List.reverse_reverse, List.append_nil, List.length_reverse, List.filter_reverse] at walked
  unfold releaseStage
  simp only [walked, true_and, and_true]
  split <;> rfl

theorem releaseStage_items (s : Holdings) (k : Kernel) (stage : Stage) (r : Teardown) :
    (s.releaseStage k stage r).1.items = s.items.filter (·.stage ≠ stage) := by
  rw [(s.releaseStage_eq k stage r).1]

theorem releaseStages_items (s : Holdings) (k : Kernel) (r : Teardown) (stages : List Stage) :
    (s.releaseStages k r stages).1.items = s.items.filter (·.stage ∉ stages) := by
  induction stages generalizing s k r with
  | nil => exact (List.filter_eq_self.mpr (by simp)).symm
  | cons stage rest ih =>
    have kept := s.releaseStage_items k stage r
    unfold releaseStages
    generalize s.releaseStage k stage r = result at kept
    obtain ⟨s₁, r₁, k₁⟩ := result
    dsimp only at kept
    simp [ih s₁ k₁ r₁, kept, List.filter_filter, Bool.and_comm]

end Holdings

end LoadableSched
