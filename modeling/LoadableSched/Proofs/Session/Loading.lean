import LoadableSched.Proofs.Session.Releasing
import LoadableSched.Proofs.Session.Taking

/-!
Loading and closing. A load that succeeds brings one object with numbers of its own, and one that fails
none; closing the object takes it away. Neither touches a place that can be held.
-/

namespace LoadableSched

variable {k k' k'' : Kernel}

namespace Kernel

/-- From `k` to `k'` numbers are given out and maps come about, which are open then, or go. -/
structure Adds (k k' : Kernel) : Prop extends k.Alike k' where
  refuses : k'.refuses = k.refuses
  kept : k'.sched.policy = k.sched.policy
  qdiscs : k'.qdiscs = k.qdiscs
  maps : ∀ id m, k'.maps.get? id = some m → k.maps.get? id = some m ∨ m.isOpen = true
  closed : ∀ id, .map id ∈ k'.releases ↔ .map id ∈ k.releases

theorem Adds.refl (k : Kernel) : k.Adds k := ⟨.refl k, rfl, rfl, rfl, fun _ _ => .inl, fun _ => .rfl⟩

theorem Adds.trans (first : k.Adds k') (later : k'.Adds k'') : k.Adds k'' where
  toAlike := first.toAlike.trans later.toAlike
  refuses := later.refuses.trans first.refuses
  kept := later.kept.trans first.kept
  qdiscs := later.qdiscs.trans first.qdiscs
  maps id m present := by
    rcases later.maps id m present with before | opened
    · exact first.maps id m before
    · exact .inr opened
  closed id := (later.closed id).trans (first.closed id)

theorem Adds.of_rest (links : k'.links = k.links) (xdp : k'.xdp = k.xdp) (filters : k'.filters = k.filters)
    (descriptors : k'.descriptors = k.descriptors) (lastId : k.lastId ≤ k'.lastId)
    (sched : k'.sched = k.sched) (refuses : k'.refuses = k.refuses) (qdiscs : k'.qdiscs = k.qdiscs)
    (maps : k'.maps = k.maps) (releases : k'.releases = k.releases) : k.Adds k' :=
  ⟨.of_tables links xdp filters descriptors lastId sched, refuses, by rw [sched], qdiscs,
    fun _ _ present => .inl (maps ▸ present), fun _ => by rw [releases]⟩

theorem addPrograms_adds (k : Kernel) (names : Table String ProgramId) (entries : List EntryPoint) :
    k.Adds (k.addPrograms names entries).2 ∧ (k.addPrograms names entries).2.objects = k.objects ∧
      ∀ p ∈ (k.addPrograms names entries).1.values, p ∈ names.values ∨
        k.lastId < p.number ∧ p.number ≤ (k.addPrograms names entries).2.lastId := by
  induction entries generalizing k names with
  | nil => exact ⟨.refl k, rfl, fun p => .inl⟩
  | cons e rest ih =>
    obtain ⟨later, objects, numbers⟩ := ih
      { k with
        lastId := k.lastId + 1
        programs := k.programs.insert ⟨k.lastId + 1⟩ ⟨e.name, e.sectionName⟩ }
      (names.insert e.name ⟨k.lastId + 1⟩)
    have first : k.Adds { k with
        lastId := k.lastId + 1
        programs := k.programs.insert ⟨k.lastId + 1⟩ ⟨e.name, e.sectionName⟩ } :=
      .of_rest rfl rfl rfl rfl (Nat.le_succ _) rfl rfl rfl rfl rfl
    have bound := later.lastId
    refine ⟨first.trans later, objects, fun p member => ?_⟩
    rcases numbers p member with before | ⟨above, below⟩
    · rcases Table.mem_values_insert before with rfl | before
      · exact .inr ⟨Nat.lt_succ_self _, bound⟩
      · exact .inl before
    · exact .inr ⟨Nat.lt_of_succ_lt above, below⟩

theorem addMaps_adds (k : Kernel) (names : Table String MapId) (specs : List MapSpec) :
    k.Adds (k.addMaps names specs).2 ∧ (k.addMaps names specs).2.objects = k.objects := by
  induction specs generalizing k names with
  | nil => exact ⟨.refl k, rfl⟩
  | cons spec rest ih =>
    obtain ⟨later, objects⟩ := ih _ _
    refine ⟨Adds.trans ?_ later, objects⟩
    refine ⟨⟨fun a => by cases a <;> rfl, Nat.le_succ _, rfl, fun before => before.setMemory _⟩,
      rfl, rfl, rfl, ?_, fun _ => .rfl⟩
    intro id m present
    simp only [Table.get?_insert] at present
    split at present
    · cases Option.some.inj present
      exact .inr rfl
    · exact .inl present

theorem openObject_made {content : FileContent} {object : ObjectId}
    (made : k.openObject content = (.ok object, k')) :
    object.number = k.lastId + 1 ∧ ∃ bytes manifest, content = .bytes bytes ∧
      Image.decode bytes = .ok manifest ∧ k' = { k with
        opens := k.opens + 1
        lastId := k.lastId + 1
        objects := k.objects.insert object ⟨manifest, false, ∅, ∅⟩ } := by
  unfold openObject at made
  cases content with
  | missing | directory => cases made
  | bytes bytes =>
    dsimp only at made
    split at made
    · cases made
    · rename_i manifest decoded
      cases made
      exact ⟨rfl, bytes, manifest, rfl, decoded, rfl⟩

theorem openObject_refused {content : FileContent} {e : Errno}
    (refused : k.openObject content = (.error e, k')) : k' = { k with opens := k.opens + 1 } := by
  unfold openObject at refused
  cases content with
  | missing | directory =>
    cases refused
    rfl
  | bytes bytes =>
    dsimp only at refused
    split at refused
    · cases refused
      rfl
    · cases refused

theorem loadObject_made {id : ObjectId} (made : k.loadObject id = (.ok (), k')) :
    k.Adds k' ∧ ∃ o, (∀ p ∈ o.programs.values, k.lastId < p.number ∧ p.number ≤ k'.lastId) ∧
      ∀ other, k'.objects.get? other = if other = id then some o else k.objects.get? other := by
  unfold loadObject at made
  split at made
  · cases made
  · split at made
    · cases made
    · rename_i object found
      split at made
      · cases made
      · split at made
        · cases made
        · obtain ⟨programs, objects, numbers⟩ := k.addPrograms_adds ∅ object.manifest.entryPoints
          obtain ⟨maps, same⟩ := addMaps_adds
            (k.addPrograms ∅ object.manifest.entryPoints).2 ∅ object.manifest.maps
          have bound := maps.lastId
          cases made
          refine ⟨(programs.trans maps).trans (.of_rest rfl rfl rfl rfl (Nat.le_refl _) rfl rfl rfl rfl rfl),
            _, fun p member => ?_, fun other => by rw [Table.get?_insert, same, objects]⟩
          obtain before | ⟨above, below⟩ := numbers p member
          · cases before
          · exact ⟨above, Nat.le_trans below bound⟩

theorem loadObject_faults {id : ObjectId} {e : Errno} (refused : k.loadObject id = (.error e, k')) :
    ∃ nextLoad, k' = { k with faults := { k.faults with nextLoad } } := by
  unfold loadObject at refused
  split at refused
  · cases refused
    exact ⟨none, rfl⟩
  · rename_i unfaulted
    refine ⟨none, ?_⟩
    rw [← unfaulted]
    split at refused
    · cases refused
      rfl
    · split at refused
      · cases refused
        rfl
      · split at refused
        · cases refused
          rfl
        · cases refused

theorem loadObject_refused {id : ObjectId} {e : Errno} (refused : k.loadObject id = (.error e, k')) :
    k.Adds k' ∧ k'.objects = k.objects := by
  obtain ⟨nextLoad, rfl⟩ := loadObject_faults refused
  exact ⟨.of_rest rfl rfl rfl rfl (Nat.le_refl _) rfl rfl rfl rfl rfl, rfl⟩

theorem closeObject_made {id : ObjectId} (made : k.closeObject id = .ok k') :
    k.Adds k' ∧ (∀ id m, k'.maps.get? id = some m → k.maps.get? id = some m) ∧
      ∀ other, k'.objects.get? other = if other = id then none else k.objects.get? other := by
  unfold closeObject at made
  split at made
  · cases made
  · cases Except.ok.inj made
    refine ⟨⟨.of_tables rfl rfl rfl rfl (Nat.le_refl _) rfl, rfl, rfl, rfl,
      fun _ _ present => .inl (Table.get?_foldl_erase present), fun id => by simp [log]⟩,
      fun _ _ => Table.get?_foldl_erase, fun other => Table.get?_erase _ _ _⟩

theorem closeObject_missing {id : ObjectId} {e : Errno} (refused : k.closeObject id = .error e) :
    k.objects.get? id = none := by
  unfold closeObject at refused
  split at refused
  · rename_i absent
    exact absent
  · cases refused

def Owned (k : Kernel) (extension : Option Extension) : Prop :=
  ∀ id, k.objects.contains id = true → ∃ e, extension = some e ∧ e.object = some id

theorem owned_none_iff : k.Owned none ↔ ∀ id, k.objects.contains id = false := by
  constructor
  · intro owned id
    rw [← Bool.not_eq_true]
    intro present
    obtain ⟨_, ⟨⟩, _⟩ := owned id present
  · intro empty id present
    rw [empty id] at present
    cases present

end Kernel

namespace Extension

variable {e : Extension} {image : Image} {failure : Failure}

theorem load_made (made : load k image = (.ok e, k')) :
    k.Adds k' ∧ ∃ id o, e.object = some id ∧ k.lastId < id.number ∧ id.number ≤ k'.lastId ∧
      (∀ p ∈ o.programs.values, k.lastId < p.number ∧ p.number ≤ k'.lastId) ∧
      ∀ other, k'.objects.get? other = if other = id then some o else k.objects.get? other := by
  unfold load at made
  dsimp only at made
  rcases opened : k.openObject (.bytes image.bytes) with ⟨e | object, k₁⟩
  · simp only [opened] at made
    cases made
  · simp only [opened] at made
    obtain ⟨number, _, manifest, _, _, rfl⟩ := Kernel.openObject_made opened
    split at made
    · rename_i k₂ loaded
      cases made
      obtain ⟨adds, o, numbers, objects⟩ := Kernel.loadObject_made loaded
      have bound : k.lastId + 1 ≤ k'.lastId := adds.lastId
      have opens : k.Adds { k with
          opens := k.opens + 1
          lastId := k.lastId + 1
          objects := k.objects.insert object ⟨manifest, false, ∅, ∅⟩ } :=
        .of_rest rfl rfl rfl rfl (Nat.le_succ _) rfl rfl rfl rfl rfl
      refine ⟨opens.trans adds, object, o, rfl, number ▸ Nat.lt_succ_self _, number ▸ bound,
        fun p member => ⟨Nat.lt_of_succ_lt (numbers p member).1, (numbers p member).2⟩, fun other => ?_⟩
      rw [objects other, Table.get?_insert]
      split <;> rfl
    · cases made

theorem load_refused (refused : load k image = (.error failure, k')) :
    k.Adds k' ∧ ∀ other, k'.objects.get? other = k.objects.get? other ∨
      k.lastId < other.number ∧ k'.objects.get? other = none := by
  unfold load at refused
  dsimp only at refused
  rcases opened : k.openObject (.bytes image.bytes) with ⟨e | object, k₁⟩
  · simp only [opened] at refused
    cases Kernel.openObject_refused opened
    cases refused
    exact ⟨.of_rest rfl rfl rfl rfl (Nat.le_refl _) rfl rfl rfl rfl rfl, fun _ => .inl rfl⟩
  · simp only [opened] at refused
    obtain ⟨number, _, manifest, _, _, rfl⟩ := Kernel.openObject_made opened
    have opens : k.Adds { k with
        opens := k.opens + 1
        lastId := k.lastId + 1
        objects := k.objects.insert object ⟨manifest, false, ∅, ∅⟩ } :=
      .of_rest rfl rfl rfl rfl (Nat.le_succ _) rfl rfl rfl rfl rfl
    split at refused
    · cases refused
    · rename_i k₂ failed
      obtain ⟨adds, objects⟩ := Kernel.loadObject_refused failed
      cases closed : k₂.closeObject object with
      | error errno =>
        have missing := Kernel.closeObject_missing closed
        rw [objects, Table.get?_insert, if_pos rfl] at missing
        cases missing
      | ok k₃ =>
        simp only [closed, Except.toOption, Option.getD_some] at refused
        cases refused
        obtain ⟨after, _, erased⟩ := Kernel.closeObject_made closed
        refine ⟨(opens.trans adds).trans after, fun other => ?_⟩
        rw [erased other]
        split
        · rename_i same
          exact .inr ⟨same ▸ number ▸ Nat.lt_succ_self _, rfl⟩
        · rename_i different
          rw [objects, Table.get?_insert, if_neg different]
          exact .inl rfl

theorem load_adds (k : Kernel) (image : Image) : k.Adds (load k image).2 := by
  rcases made : load k image with ⟨failure | e, k'⟩
  · exact (load_refused made).1
  · exact (load_made made).1

theorem load_owned (owned : k.Owned none) (image : Image) :
    (load k image).2.Owned (load k image).1.toOption := by
  have empty : ∀ id, k.objects.get? id = none := by
    intro id
    have absent := Kernel.owned_none_iff.mp owned id
    rwa [Table.contains_eq, Option.isSome_eq_false_iff, Option.isNone_iff_eq_none] at absent
  rcases made : load k image with ⟨failure | e, k'⟩
  · obtain ⟨_, objects⟩ := load_refused made
    refine Kernel.owned_none_iff.mpr fun id => ?_
    have gone : k'.objects.get? id = none := by
      rcases objects id with same | ⟨_, gone⟩
      · rw [same, empty id]
      · exact gone
    rw [Table.contains_eq, gone]
    rfl
  · obtain ⟨_, id, o, object, _, _, _, objects⟩ := load_made made
    intro other present
    rw [Table.contains_eq, objects other] at present
    split at present
    · rename_i same
      exact ⟨e, rfl, same ▸ object⟩
    · rw [empty other] at present
      cases present

end Extension

end LoadableSched
