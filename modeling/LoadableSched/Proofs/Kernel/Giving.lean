import LoadableSched.Proofs.Kernel.Numbering

/-!
No number is given out twice, whatever it is the number of, and there is nothing without a number that was
given out.
-/

namespace LoadableSched

variable {k k' : Kernel}

theorem nodup_numbered {α : Type} (kind : IdKind) (last : Nat) (items : List α) :
    ((((numbered kind last items).map (·.1)).map Id.tagged).map (·.2)).Nodup := by
  induction items generalizing last with
  | nil => exact List.nodup_nil
  | cons item rest ih =>
    refine List.nodup_cons.mpr ⟨fun again => ?_, ih (last + 1)⟩
    simp only [List.map_map] at again
    obtain ⟨e, listed, same⟩ := List.mem_map.mp again
    have above := (number_bounds listed).1
    exact Nat.lt_irrefl _ ((congrArg (last + 1 < ·) same).mp above)

namespace Kernel

/-- The numbers that the calls of a run give out. -/
def givenAll (k : Kernel) : List Call → List (IdKind × Nat)
  | [] => []
  | call :: rest => k.given call ++ (k.after call).givenAll rest

def numbers (k : Kernel) : List (IdKind × Nat) :=
  k.objects.keys.map Id.tagged ++ k.programs.keys.map Id.tagged ++ k.maps.keys.map Id.tagged ++
    k.links.keys.map Id.tagged

structure Gives (k k' : Kernel) (new : List (IdKind × Nat)) : Prop where
  once : (new.map (·.2)).Nodup
  above : ∀ x ∈ new, k.lastId < x.2 ∧ x.2 ≤ k'.lastId
  lastId : k.lastId ≤ k'.lastId
  all : k'.numbers ⊆ k.numbers ++ new

theorem numbers_subset {new : List (IdKind × Nat)}
    (objects : ∀ id ∈ k'.objects.keys, id ∈ k.objects.keys ∨ id.tagged ∈ new)
    (programs : ∀ id ∈ k'.programs.keys, id ∈ k.programs.keys ∨ id.tagged ∈ new)
    (maps : ∀ id ∈ k'.maps.keys, id ∈ k.maps.keys ∨ id.tagged ∈ new)
    (links : ∀ id ∈ k'.links.keys, id ∈ k.links.keys ∨ id.tagged ∈ new) : k'.numbers ⊆ k.numbers ++ new := by
  intro x member
  simp only [numbers, List.mem_append, List.mem_map] at member ⊢
  rcases member with ((⟨id, there, rfl⟩ | ⟨id, there, rfl⟩) | ⟨id, there, rfl⟩) | ⟨id, there, rfl⟩
  · exact (objects id there).imp_left fun before => .inl (.inl (.inl ⟨id, before, rfl⟩))
  · exact (programs id there).imp_left fun before => .inl (.inl (.inr ⟨id, before, rfl⟩))
  · exact (maps id there).imp_left fun before => .inl (.inr ⟨id, before, rfl⟩)
  · exact (links id there).imp_left fun before => .inr ⟨id, before, rfl⟩

theorem Idles.gives (same : k.Idles k') : k.Gives k' [] where
  once := List.nodup_nil
  above _ member := by cases member
  lastId := Nat.le_of_eq same.lastId.symm
  all := numbers_subset (fun id there => .inl (same.objects ▸ there)) (fun id there => .inl (same.programs ▸ there))
    (fun id there => .inl (same.mapKeys ▸ there)) fun id there => .inl (same.links there)

theorem Joins.gives {link : LinkId} (joins : k.Joins k' link) : k.Gives k' [link.tagged] where
  once := List.nodup_singleton _
  above x member := by
    cases List.mem_singleton.mp member
    rw [joins.number, joins.lastId]
    exact ⟨Nat.lt_succ_self _, Nat.le_refl _⟩
  lastId := joins.lastId ▸ Nat.le_succ _
  all := by
    obtain ⟨target, links⟩ := joins.links
    refine numbers_subset (fun id there => .inl (joins.objects ▸ there))
      (fun id there => .inl (joins.programs ▸ there)) (fun id there => .inl (joins.maps ▸ there)) fun id there => ?_
    rw [links] at there
    rcases (Table.mem_keys_insertEntry _ _ _ _).mp there with rfl | before
    · exact .inr (List.mem_singleton.mpr rfl)
    · exact .inl before

theorem openObject_gives {content : FileContent} {object : ObjectId}
    (made : k.openObject content = (.ok object, k')) : k.Gives k' [object.tagged] := by
  obtain ⟨number, _, _, _, _, rfl⟩ := openObject_made made
  refine ⟨List.nodup_singleton _, fun x member => ?_, Nat.le_succ _, numbers_subset (fun id there => ?_)
    (fun _ => .inl) (fun _ => .inl) fun _ => .inl⟩
  · cases List.mem_singleton.mp member
    exact ⟨Nat.lt_of_succ_le (Nat.le_of_eq number.symm), Nat.le_of_eq number⟩
  · rcases (Table.mem_keys_insertEntry _ _ _ _).mp there with rfl | before
    · exact .inr (List.mem_singleton.mpr rfl)
    · exact .inl before

theorem closeObject_gives {object : ObjectId} (made : k.closeObject object = .ok k') : k.Gives k' [] := by
  cases there : k.objects.get? object with
  | none => simp [closeObject, there] at made
  | some o =>
    cases (closeObject_there there).symm.trans made
    exact ⟨List.nodup_nil, fun _ member => (List.not_mem_nil member).elim, Nat.le_refl _,
      numbers_subset (fun id there => .inl (Table.keys_foldl_erase [object] _ there))
        (fun id there => .inl (Table.keys_foldl_erase _ _ there))
        (fun id there => .inl (Table.keys_foldl_erase _ _ there)) fun _ => .inl⟩

theorem filter_new {kind : IdKind} {β : Type} {t t' : Table (Id kind) β} {last : Nat} {new : List (Id kind)}
    (issued : ∀ id ∈ t.keys, id.number ≤ last) (keys : t'.keys = t.keys ++ new)
    (above : ∀ id ∈ new, last < id.number) : t'.keys.filter (· ∉ t.keys) = new := by
  have old : t.keys.filter (· ∉ t.keys) = [] := List.filter_eq_nil_iff.mpr fun id there => by simpa using there
  have kept : new.filter (· ∉ t.keys) = new := List.filter_eq_self.mpr fun id member => decide_eq_true fun there =>
    Nat.lt_irrefl _ (Nat.lt_of_lt_of_le (above id member) (issued id there))
  rw [keys, List.filter_append, old, kept, List.nil_append]

theorem loadObject_gives {object : ObjectId} (issued : k.Issued) (made : k.loadObject object = (.ok (), k')) :
    k.Gives k' (k.given (.loadObject object)) := by
  obtain ⟨o, there, loads⟩ := loadObject_loads issued made
  obtain ⟨new, entries, listed⟩ := loads.maps
  let first := k.lastId + o.manifest.entryPoints.length
  have programs : k'.programs.keys =
      k.programs.keys ++ (numbered .program k.lastId o.manifest.entryPoints).map (·.1) := by
    rw [Table.keys, loads.programs, List.map_append, List.map_map]
    rfl
  have maps : k'.maps.keys = k.maps.keys ++ (numbered .map first o.manifest.maps).map (·.1) := by
    rw [Table.keys, entries, List.map_append, ← listed, List.map_map]
    rfl
  have programsAbove : ∀ id ∈ (numbered .program k.lastId o.manifest.entryPoints).map (·.1),
      k.lastId < id.number ∧ id.number ≤ first := fun id member => by
    obtain ⟨e, numbered, rfl⟩ := List.mem_map.mp member
    exact number_bounds numbered
  have mapsAbove : ∀ id ∈ (numbered .map first o.manifest.maps).map (·.1),
      first < id.number ∧ id.number ≤ k'.lastId := fun id member => by
    obtain ⟨e, numbered, rfl⟩ := List.mem_map.mp member
    rw [loads.lastId]
    exact number_bounds numbered
  have start : k.lastId ≤ first := Nat.le_add_right _ _
  have last : first ≤ k'.lastId := loads.lastId ▸ Nat.le_add_right _ _
  have given : k.given (.loadObject object) =
      ((numbered .program k.lastId o.manifest.entryPoints).map (·.1)).map Id.tagged ++
        ((numbered .map first o.manifest.maps).map (·.1)).map Id.tagged := by
    simp only [Kernel.given, made]
    rw [filter_new issued.programs programs fun id member => (programsAbove id member).1,
      filter_new issued.maps maps fun id member => Nat.lt_of_le_of_lt start (mapsAbove id member).1]
  have objects : ∀ id ∈ k'.objects.keys, id ∈ k.objects.keys := fun id member => by
    rw [loads.object] at member
    rcases (Table.mem_keys_insertEntry _ _ _ _).mp member with rfl | before
    · exact (Table.contains_iff_mem_keys _ _).mp (Table.contains_iff_exists.mpr ⟨o, there⟩)
    · exact before
  rw [given]
  refine ⟨?_, fun x member => ?_, Nat.le_trans start last,
    numbers_subset (fun id member => .inl (objects id member)) (fun id member => ?_) (fun id member => ?_)
      fun id member => .inl ((loadObject_aside made).1.1 ▸ member)⟩
  · rw [List.map_append]
    refine List.nodup_append.mpr ⟨nodup_numbered .., nodup_numbered .., fun a program b map same => ?_⟩
    obtain ⟨_, tagged, rfl⟩ := List.mem_map.mp program
    obtain ⟨p, first, rfl⟩ := List.mem_map.mp tagged
    obtain ⟨_, tagged, rfl⟩ := List.mem_map.mp map
    obtain ⟨m, second, rfl⟩ := List.mem_map.mp tagged
    exact Nat.ne_of_lt (Nat.lt_of_le_of_lt (programsAbove p first).2 (mapsAbove m second).1) same
  · rcases List.mem_append.mp member with program | map
    · obtain ⟨p, first, rfl⟩ := List.mem_map.mp program
      obtain ⟨above, below⟩ := programsAbove p first
      exact ⟨above, Nat.le_trans below last⟩
    · obtain ⟨m, second, rfl⟩ := List.mem_map.mp map
      obtain ⟨above, below⟩ := mapsAbove m second
      exact ⟨Nat.lt_of_le_of_lt start above, below⟩
  · rw [programs] at member
    exact (List.mem_append.mp member).imp_right fun new => List.mem_append_left _ (List.mem_map_of_mem new)
  · rw [maps] at member
    exact (List.mem_append.mp member).imp_right fun new => List.mem_append_right _ (List.mem_map_of_mem new)

theorem after_gives (issued : k.Issued) (call : Call) : k.Gives (k.after call) (k.given call) := by
  cases after_step k call with
  | idles none same => exact none ▸ same.gives
  | opens content object is made =>
    have one : k.given call = [object.tagged] := by simp [is, given, made, Except.toOption]
    exact one ▸ openObject_gives made
  | loads object is made =>
    subst is
    exact loadObject_gives issued made
  | closes object is made =>
    subst is
    exact closeObject_gives made
  | joins link one joins => exact one ▸ joins.gives

theorem givenAll_once (issued : k.Issued) (calls : List Call) :
    ((k.givenAll calls).map (·.2)).Nodup ∧ ∀ x ∈ k.givenAll calls, k.lastId < x.2 := by
  induction calls generalizing k with
  | nil => exact ⟨List.nodup_nil, fun _ member => (List.not_mem_nil member).elim⟩
  | cons call rest ih =>
    have gives := after_gives issued call
    obtain ⟨once, above⟩ := ih (after_issued issued call)
    refine ⟨?_, fun x member => ?_⟩
    · rw [givenAll, List.map_append]
      refine List.nodup_append.mpr ⟨gives.once, once, fun a first b later same => ?_⟩
      obtain ⟨x, new, rfl⟩ := List.mem_map.mp first
      obtain ⟨y, newer, rfl⟩ := List.mem_map.mp later
      exact Nat.ne_of_lt (Nat.lt_of_le_of_lt (gives.above x new).2 (above y newer)) same
    · rcases List.mem_append.mp member with new | newer
      · exact (gives.above x new).1
      · exact Nat.lt_of_le_of_lt gives.lastId (above x newer)

theorem afterAll_numbers (issued : k.Issued) (calls : List Call) :
    (k.afterAll calls).numbers ⊆ k.numbers ++ k.givenAll calls := by
  induction calls generalizing k with
  | nil => exact List.subset_append_left _ _
  | cons call rest ih =>
    intro x member
    have all := (after_gives issued call).all
    rcases List.mem_append.mp (ih (after_issued issued call) member) with there | newer
    · rcases List.mem_append.mp (all there) with before | new
      · exact List.mem_append_left _ before
      · exact List.mem_append_right _ (List.mem_append_left _ new)
    · exact List.mem_append_right _ (List.mem_append_right _ newer)

/-- No number is given out twice, and all that there is has a number of its own that was given out. -/
theorem numbers_are_given_once (cpus : Nat) (features : Features) (calls : List Call) :
    (((new cpus features).givenAll calls).map (·.2)).Nodup ∧
      ((new cpus features).afterAll calls).numbers ⊆ (new cpus features).givenAll calls ∧
      ∀ x ∈ ((new cpus features).afterAll calls).numbers, ∀ y ∈ ((new cpus features).afterAll calls).numbers,
        x.2 = y.2 → x = y := by
  have issued := new_issued cpus features
  have once := (givenAll_once issued calls).1
  have given : ((new cpus features).afterAll calls).numbers ⊆ (new cpus features).givenAll calls :=
    afterAll_numbers issued calls
  exact ⟨once, given, fun x there y also same => List.inj_on_of_nodup_map once (given there) (given also) same⟩

end Kernel

end LoadableSched
