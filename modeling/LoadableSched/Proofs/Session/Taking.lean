import LoadableSched.Proofs.Session.Tracking

/-!
What the kernel takes up: an attachment takes a place that was free, or changes no place at all.
-/

namespace LoadableSched

variable {s : Holdings} {k k' : Kernel} {a : Resource} {v : Occupant} {e : Errno}

namespace Kernel

/-! What each attachment makes of the kernel. -/

def addLink (k : Kernel) (link : Link) : LinkId × Kernel :=
  ((k.newId .link).1, { (k.newId .link).2 with links := k.links.insert (k.newId .link).1 link })

theorem attachProgram_made {id : ProgramId} {link : LinkId}
    (made : k.attachProgram id = .ok (link, k')) : (link, k') = k.addLink (.program id) := by
  unfold attachProgram at made
  split at made
  · cases made
  · split at made
    · cases made
    · split at made
      · cases made
      · exact (Except.ok.inj made).symm

theorem openDirectory_made {place : Place} {fd : Descriptor}
    (made : k.openDirectory place = .ok (fd, k')) : (fd, k') = k.openPlace place := by
  unfold openDirectory at made
  split at made
  · exact (Except.ok.inj made).symm
  · split at made <;> cases made

theorem attachCgroup_made {id : ProgramId} {fd : Descriptor} {link : LinkId}
    (made : k.attachCgroup id fd = (.ok link, k')) :
    (link, k') = { k with cgroupAttempts := k.cgroupAttempts + 1 }.addLink (.cgroup id) := by
  unfold attachCgroup at made
  dsimp only at made
  split at made
  · cases made
  · split at made
    · cases made
    · cases made
      rfl

theorem attachCgroup_counted {id : ProgramId} {fd : Descriptor}
    (refused : k.attachCgroup id fd = (.error e, k')) :
    ∃ count, k' = { k with
      cgroupAttempts := k.cgroupAttempts + 1
      faults := { k.faults with cgroupAttaches := count } } := by
  unfold attachCgroup at refused
  dsimp only at refused
  split at refused
  · cases refused
    exact ⟨_, rfl⟩
  · split at refused
    · cases refused
      exact ⟨k.faults.cgroupAttaches, rfl⟩
    · cases refused

theorem attachXdp_made {ifindex : IfIndex} {id : ProgramId}
    (made : k.attachXdp ifindex id ifNoneExists = .ok k') :
    k.xdp.get? ifindex = none ∧ k' = { k with xdp := k.xdp.insert ifindex id } := by
  unfold attachXdp at made
  split at made
  · cases made
  · split at made
    · cases made
    · split at made
      · cases made
      · split at made
        · cases made
        · rename_i vacant
          exact ⟨by simpa [ifNoneExists, Table.contains_eq] using vacant, (Except.ok.inj made).symm⟩

theorem destroyQdisc_made {ifindex : IfIndex} (made : k.destroyQdisc ifindex = .ok k') :
    k.faults.qdiscCleanup = false ∧ k' = { k with
      qdiscs := k.qdiscs.erase ifindex
      filters := k.filters.filter fun side _ => side.ifindex ≠ ifindex } := by
  unfold destroyQdisc at made
  split at made
  · cases made
  · rename_i unhindered
    split at made
    · cases made
    · exact ⟨by simpa using unhindered, (Except.ok.inj made).symm⟩

theorem createQdisc_made {ifindex : IfIndex} (made : k.createQdisc ifindex = .ok k') :
    k' = { k with qdiscs := k.qdiscs ++ [ifindex] } := by
  unfold createQdisc at made
  split at made
  · cases made
  · split at made
    · cases made
    · exact (Except.ok.inj made).symm

theorem attachFilter_made {side : Side} {id : ProgramId} (made : k.attachFilter side id = .ok k') :
    side.ifindex ∈ k.qdiscs ∧ k.filters.get? side = none ∧
      k' = { k with filters := k.filters.insert side id } := by
  unfold attachFilter at made
  split at made
  · cases made
  · rename_i disciplined
    split at made
    · cases made
    · split at made
      · cases made
      · split at made
        · cases made
        · rename_i vacant
          exact ⟨by simpa using disciplined, by simpa [Table.contains_eq] using vacant,
            (Except.ok.inj made).symm⟩

theorem attachStructOps_made {map : MapId} {policy : Policy Memory} {link : LinkId}
    (made : k.attachStructOps map policy = (.ok link, k')) :
    (k.sched.install policy).1 = .ok () ∧
      (link, k') = { k with sched := (k.sched.install policy).2 }.addLink (.structOps map) := by
  unfold attachStructOps at made
  split at made
  · cases made
  · split at made
    · cases made
    · rename_i sched installed
      cases made
      rw [installed]
      exact ⟨rfl, rfl⟩

theorem attachStructOps_refused {map : MapId} {policy : Policy Memory}
    (refused : k.attachStructOps map policy = (.error e, k')) :
    k' = k ∨ ∃ reason, (k.sched.install policy).1 = .error reason ∧
      k' = { k with sched := (k.sched.install policy).2 } := by
  unfold attachStructOps at refused
  split at refused
  · cases refused
    exact .inl rfl
  · split at refused
    · rename_i reason sched failed
      cases refused
      rw [failed]
      exact .inr ⟨reason, rfl, rfl⟩
    · cases refused

theorem attachStructOps_sustains {map : MapId} {policy : Policy Memory} {result : Except Errno LinkId}
    (outcome : k.attachStructOps map policy = (result, k')) : k.Sustains k' := by
  cases result with
  | error e =>
    rcases attachStructOps_refused outcome with same | ⟨_, _, same⟩
    · subst same
      exact .refl k'
    · subst same
      exact ⟨rfl, rfl, fun _ => .rfl⟩
  | ok link =>
    obtain ⟨_, same⟩ := attachStructOps_made outcome
    cases same
    exact ⟨rfl, rfl, fun _ => .rfl⟩

theorem attachStructOps_occupant {map : MapId} {policy : Policy Memory}
    (refused : k.attachStructOps map policy = (.error e, k')) (a : Resource) :
    k'.occupant? a = k.occupant? a := by
  rcases attachStructOps_refused refused with same | ⟨_, _, same⟩
  · rw [same]
  · subst same
    cases a <;> rfl

/-- From `k` to `k'` a place is taken up, and nothing else changes that matters to a session. -/
structure Takes (k k' : Kernel) (a : Resource) (v : Occupant) : Prop
    extends k.Gains k' (some a) v, k.Spares k' where
  sched : k'.sched = k.sched

structure Rests (k k' : Kernel) : Prop extends k.Alike k', k.Spares k'

theorem Rests.refl (k : Kernel) : k.Rests k := ⟨.refl k, .refl k⟩

theorem addLink_gains (numbered : k.Numbered) (link : Link) :
    k.Gains (k.addLink link).2 (some (.link (k.addLink link).1)) (.link link) where
  free := by
    rintro b ⟨⟩
    cases present : k.occupant? (.link (k.addLink link).1) with
    | none => rfl
    | some v => exact absurd (numbered _ v present) (Nat.not_succ_le_self _)
  occupant b := by
    cases b with
    | link other =>
      simp only [occupant?, addLink, Table.map_get?_insert, Option.some.injEq, Resource.link.injEq]
    | xdp | filter | descriptor => rfl
  lastId := Nat.le_succ _
  number := by
    rintro id ⟨⟩
    exact ⟨Nat.lt_succ_self _, Nat.le_refl _⟩

theorem attachProgram_takes (numbered : k.Numbered) {id : ProgramId} {link : LinkId}
    (made : k.attachProgram id = .ok (link, k')) :
    k.Takes k' (.link link) (.link (.program id)) := by
  cases attachProgram_made made
  exact ⟨addLink_gains numbered _, ⟨fun _ => rfl, rfl⟩, rfl⟩

/-! Descriptors. -/

theorem lowestFree_open {fuel : Nat} {fd : Descriptor}
    (taken : k.descriptors.contains (k.lowestFree fuel fd) = true) (n : Nat) (within : n ≤ fuel) :
    k.descriptors.contains (fd + n) = true := by
  induction fuel generalizing fd n with
  | zero =>
    cases Nat.le_zero.mp within
    simpa [lowestFree] using taken
  | succ fuel ih =>
    unfold lowestFree at taken
    split at taken
    · rename_i first
      cases n with
      | zero => simpa using first
      | succ n =>
        have later := ih taken n (Nat.le_of_succ_le_succ within)
        rwa [Int.add_right_comm, Int.add_assoc] at later
    · rename_i free
      exact absurd taken free

theorem freeDescriptor_free (k : Kernel) : k.descriptors.contains k.freeDescriptor = false := by
  rw [← Bool.not_eq_true]
  intro taken
  -- One more than are open would all be open.
  let fds := (List.range (k.descriptors.size + 2)).map fun n => (3 : Descriptor) + (n : Nat)
  have distinct : fds.Nodup := by
    refine List.Pairwise.map _ ?_ List.nodup_range
    intro a b other same
    exact other (Int.ofNat_inj.mp (Int.add_left_cancel same))
  have inside : fds ⊆ k.descriptors.keys := by
    intro fd member
    obtain ⟨n, bound, rfl⟩ := List.mem_map.mp member
    exact (Table.contains_iff_mem_keys _ _).mp
      (lowestFree_open taken n (Nat.le_of_lt_succ (List.mem_range.mp bound)))
  have short := distinct.length_le_of_subset inside
  simp only [fds, List.length_map, List.length_range, Table.keys, Table.size] at short
  omega

theorem openDirectory_takes {place : Place} {fd : Descriptor}
    (made : k.openDirectory place = .ok (fd, k')) :
    k.Takes k' (.descriptor fd) (.descriptor (k.files.isDirectory place)) := by
  cases openDirectory_made made
  refine ⟨⟨?_, ?_, Nat.le_refl _, ?_⟩, ⟨fun _ => rfl, rfl⟩, rfl⟩
  · rintro b ⟨⟩
    have free := k.freeDescriptor_free
    rw [Table.contains_eq, Option.isSome_eq_false_iff, Option.isNone_iff_eq_none] at free
    rw [occupant?, free]
    rfl
  · intro b
    cases b with
    | descriptor other =>
      simp only [occupant?, Table.map_get?_insert, Option.some.injEq, Resource.descriptor.injEq]
    | link | xdp | filter => rfl
  · rintro id ⟨⟩

theorem attachCgroup_takes (numbered : k.Numbered) {id : ProgramId} {fd : Descriptor} {link : LinkId}
    (made : k.attachCgroup id fd = (.ok link, k')) :
    k.Takes k' (.link link) (.link (.cgroup id)) := by
  cases attachCgroup_made made
  have gains := addLink_gains numbered (.cgroup id)
  exact ⟨⟨gains.free, gains.occupant, gains.lastId, gains.number⟩, ⟨fun _ => rfl, rfl⟩, rfl⟩

theorem attachCgroup_rests {id : ProgramId} {fd : Descriptor}
    (refused : k.attachCgroup id fd = (.error e, k')) : k.Rests k' := by
  obtain ⟨count, rfl⟩ := attachCgroup_counted refused
  exact ⟨.of_tables rfl rfl rfl rfl (Nat.le_refl _) rfl, ⟨fun _ => rfl, rfl⟩⟩

/-! Interfaces. -/

theorem attachXdp_takes {ifindex : IfIndex} {id : ProgramId}
    (made : k.attachXdp ifindex id ifNoneExists = .ok k') :
    k.Takes k' (.xdp ifindex) (.program id) := by
  obtain ⟨free, rfl⟩ := attachXdp_made made
  refine ⟨⟨?_, ?_, Nat.le_refl _, ?_⟩, ⟨fun _ => rfl, rfl⟩, rfl⟩
  · rintro b ⟨⟩
    rw [occupant?, free]
    rfl
  · intro b
    cases b with
    | xdp other =>
      simp only [occupant?, Table.map_get?_insert, Option.some.injEq, Resource.xdp.injEq]
    | link | filter | descriptor => rfl
  · rintro id ⟨⟩

theorem destroyQdisc_occupant {ifindex : IfIndex} (made : k.destroyQdisc ifindex = .ok k')
    {a : Resource} (other : ∀ side, a = .filter side → side.ifindex = ifindex → k.occupant? a = none) :
    k'.occupant? a = k.occupant? a := by
  obtain ⟨_, rfl⟩ := destroyQdisc_made made
  cases a with
  | filter side =>
    simp only [occupant?, Table.get?_filter_key]
    split
    · rfl
    · rename_i here
      exact (other side rfl (by simpa using here)).symm
  | link | xdp | descriptor => rfl

theorem destroyQdisc_rests {ifindex : IfIndex} (made : k.destroyQdisc ifindex = .ok k')
    (bare : ∀ side, side.ifindex = ifindex → k.occupant? (.filter side) = none) : k.Rests k' := by
  have occupant : ∀ a, k'.occupant? a = k.occupant? a := fun a =>
    destroyQdisc_occupant made fun side is here => is ▸ bare side here
  obtain ⟨_, rfl⟩ := destroyQdisc_made made
  exact ⟨⟨occupant, Nat.le_refl _, rfl, id⟩, ⟨fun _ => rfl, rfl⟩⟩

theorem createQdisc_rests {ifindex : IfIndex} (made : k.createQdisc ifindex = .ok k') :
    k.Rests k' := by
  cases createQdisc_made made
  exact ⟨.of_tables rfl rfl rfl rfl (Nat.le_refl _) rfl, ⟨fun _ => rfl, rfl⟩⟩

theorem attachFilter_takes {side : Side} {id : ProgramId} (made : k.attachFilter side id = .ok k') :
    k.Takes k' (.filter side) (.program id) := by
  obtain ⟨_, free, rfl⟩ := attachFilter_made made
  refine ⟨⟨?_, ?_, Nat.le_refl _, ?_⟩, ⟨fun _ => rfl, rfl⟩, rfl⟩
  · rintro b ⟨⟩
    rw [occupant?, free]
    rfl
  · intro b
    cases b with
    | filter other =>
      simp only [occupant?, Table.map_get?_insert, Option.some.injEq, Resource.filter.injEq]
    | link | xdp | descriptor => rfl
  · rintro id ⟨⟩

/-! Schedulers. -/

theorem attachStructOps_gains (numbered : k.Numbered) {map : MapId} {policy : Policy Memory}
    {link : LinkId} (made : k.attachStructOps map policy = (.ok link, k')) :
    k.Gains k' (some (.link link)) (.link (.structOps map)) ∧ k.Spares k' := by
  obtain ⟨_, same⟩ := attachStructOps_made made
  cases same
  have gains := addLink_gains numbered (.structOps map)
  exact ⟨⟨gains.free, gains.occupant, gains.lastId, gains.number⟩, ⟨fun _ => rfl, rfl⟩⟩

theorem attachStructOps_takes (tracks : s.Tracks k) {map : MapId} {policy : Policy Memory}
    (conforms : ∃ own, policy.Conforms own) {link : LinkId}
    (made : k.attachStructOps map policy = (.ok link, k')) :
    k.Gains k' (some (.link link)) (.link (.structOps map)) ∧ k.Spares k' ∧ k'.sched.Steady ∧
      k.sched.policy = none ∧ k'.sched.policy.isSome := by
  obtain ⟨gains, spares⟩ := attachStructOps_gains tracks.numbered made
  obtain ⟨installed, same⟩ := attachStructOps_made made
  refine ⟨gains, spares, ?_⟩
  cases same
  -- A second policy is refused as busy, and the first one is accepted because it conforms.
  cases active : k.sched.policy with
  | some current =>
    rw [SchedClass.install_busy active] at installed
    cases installed
  | none =>
    obtain ⟨own, keeps⟩ := conforms
    have stands := SchedClass.install_stands tracks.steady.agrees tracks.steady.healthy active keeps
    exact ⟨tracks.steady.step (.install policy) ⟨own, keeps⟩, rfl,
      Option.isSome_iff_exists.mpr ⟨policy, stands.2.2⟩⟩

theorem attachStructOps_rests (steady : k.sched.Steady) {map : MapId} {policy : Policy Memory}
    (conforms : ∃ own, policy.Conforms own)
    (refused : k.attachStructOps map policy = (.error e, k')) : k.Rests k' := by
  rcases attachStructOps_refused refused with same | ⟨reason, failed, same⟩
  · rw [same]
    exact .refl k
  · subst same
    cases active : k.sched.policy with
    | some current =>
      rw [SchedClass.install_busy active]
      exact ⟨.of_tables rfl rfl rfl rfl (Nat.le_refl _) rfl, ⟨fun _ => rfl, rfl⟩⟩
    | none =>
      obtain ⟨own, keeps⟩ := conforms
      have stands := SchedClass.install_stands steady.agrees steady.healthy active keeps
      rw [stands.1] at failed
      cases failed

end Kernel

end LoadableSched
