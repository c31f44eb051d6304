import LoadableSched.Proofs.Kernel.Numbering
import LoadableSched.Proofs.Manifest.RoundTrip

/-!
What is left of an object in the tables of the kernel once it is closed. A load that fails leaves
nothing. One that succeeds numbers every program and every map of the image, but closing finds them by
their names, so that of one name given several times only the last bearer goes.
-/

namespace LoadableSched

variable {α : Type} {kind : IdKind} {k k' : Kernel}

def shadowed (kind : IdKind) (name : α → String) (last : Nat) : List α → List (Id kind × α)
  | [] => []
  | item :: rest =>
    if name item ∈ rest.map name then (⟨last + 1⟩, item) :: shadowed kind name (last + 1) rest
    else shadowed kind name (last + 1) rest

def findable (kind : IdKind) (name : α → String) (last : Nat) (items : List α) : List (Id kind) :=
  (Table.ofList ((numbered kind last items).map fun e => (name e.2, e.1))).values

theorem findable_bounds {name : α → String} {last : Nat} {items : List α} {id : Id kind}
    (member : id ∈ findable kind name last items) : last < id.number ∧ id.number ≤ last + items.length := by
  obtain ⟨entry, there, rfl⟩ := List.mem_map.mp member
  obtain ⟨e, listed, rfl⟩ := List.mem_map.mp (Table.mem_ofList there)
  exact number_bounds listed

theorem findable_gt {name : α → String} {last : Nat} {items : List α} {id : Id kind}
    (member : id ∈ findable kind name last items) : last < id.number :=
  (findable_bounds member).1

theorem map_numbered (kind : IdKind) (name : α → String) (last : Nat) (items : List α) :
    (numbered kind last items).map (fun e => name e.2) = items.map name := by
  induction items generalizing last with
  | nil => rfl
  | cons item rest ih => exact congrArg _ (ih (last + 1))

theorem mem_findable_cons (name : α → String) (last : Nat) (item : α) (rest : List α) (id : Id kind) :
    id ∈ findable kind name last (item :: rest) ↔
      (id = ⟨last + 1⟩ ∧ name item ∉ rest.map name) ∨ id ∈ findable kind name (last + 1) rest := by
  rw [findable, numbered, List.map_cons, Table.mem_values_ofList_cons, List.map_map]
  exact or_congr_left (and_congr_right fun _ => not_congr (map_numbered kind name (last + 1) rest ▸ Iff.rfl))

theorem filter_numbered (kind : IdKind) (name : α → String) (last : Nat) (items : List α) :
    (numbered kind last items).filter (·.1 ∉ findable kind name last items) =
      shadowed kind name last items := by
  induction items generalizing last with
  | nil => rfl
  | cons item rest ih =>
    have first : (⟨last + 1⟩ : Id kind) ∉ findable kind name (last + 1) rest := fun member =>
      Nat.lt_irrefl _ (findable_gt member)
    have others : (numbered kind (last + 1) rest).filter (·.1 ∉ findable kind name last (item :: rest)) =
        shadowed kind name (last + 1) rest := by
      rw [← ih (last + 1)]
      refine List.filter_congr fun e listed => decide_eq_decide.mpr (not_congr ?_)
      have other : e.1 ≠ ⟨last + 1⟩ := fun same =>
        Nat.lt_irrefl _ (same ▸ (number_bounds listed).1 : last + 1 < (⟨last + 1⟩ : Id kind).number)
      simp [mem_findable_cons, other]
    rw [numbered, shadowed, List.filter_cons, others]
    by_cases again : name item ∈ rest.map name <;> simp [mem_findable_cons, first, again]

theorem shadowed_eq_nil_iff (kind : IdKind) (name : α → String) (last : Nat) (items : List α) :
    shadowed kind name last items = [] ↔ (items.map name).Nodup := by
  induction items generalizing last with
  | nil => simp [shadowed]
  | cons item rest ih =>
    rw [shadowed, List.map_cons, List.nodup_cons, ← ih (last + 1)]
    split
    · rename_i again
      simp [again]
    · rename_i once
      simp [once]

namespace Kernel

structure SameTables (k k' : Kernel) : Prop where
  objects : k'.objects = k.objects
  programs : k'.programs = k.programs
  maps : k'.maps = k.maps

/-- Closing finds numbers by names, and of the numbers of one name the last. -/
theorem close_entries {β γ : Type} {t t' : Table (Id kind) β} {last : Nat} (items : List α)
    {new : List (Id kind × β)} (name : α → String) (view : β → γ) (see : α → γ)
    (issued : ∀ id ∈ t.keys, id.number ≤ last) (entries : t'.entries = t.entries ++ new)
    (listed : new.map (fun e => (e.1, view e.2)) = (numbered kind last items).map fun e => (e.1, see e.2)) :
    ∃ kept : List (Id kind × β),
      ((findable kind name last items).foldl Table.erase t').entries = t.entries ++ kept ∧
      kept.map (fun e => (e.1, view e.2)) = (shadowed kind name last items).map fun e => (e.1, see e.2) := by
  have old : t.entries.filter (·.1 ∉ findable kind name last items) = t.entries := by
    refine List.filter_eq_self.mpr fun entry member => decide_eq_true fun found => ?_
    exact Nat.lt_irrefl _ (Nat.lt_of_lt_of_le (findable_gt found) (issued _ (List.mem_map_of_mem member)))
  refine ⟨new.filter (·.1 ∉ findable kind name last items), ?_, ?_⟩
  · rw [Table.entries_foldl_erase, entries, List.filter_append, old]
  · rw [← filter_numbered]
    have before := congrArg (List.filter (·.1 ∉ findable kind name last items)) listed
    rwa [List.filter_map, List.filter_map] at before

theorem Loads.closed {id : ObjectId} {manifest : Manifest} (issued : k.Issued)
    (loads : k.Loads k' id manifest) :
    ∃ k'', k'.closeObject id = .ok k'' ∧ k''.objects = k.objects.erase id ∧
      k''.programs.entries = k.programs.entries ++
        (shadowed .program (·.name) k.lastId manifest.entryPoints).map (fun e => (e.1, ⟨e.2.name, e.2.sectionName⟩)) ∧
      ∃ kept : List (MapId × KernelMap), k''.maps.entries = k.maps.entries ++ kept ∧
        kept.map (fun e => (e.1, e.2.spec)) =
          shadowed .map (·.name) (k.lastId + manifest.entryPoints.length) manifest.maps := by
  obtain ⟨new, maps, listed⟩ := loads.maps
  obtain ⟨keptPrograms, programs, samePrograms⟩ := close_entries manifest.entryPoints (·.name)
    (fun p => p) (fun e => (⟨e.name, e.sectionName⟩ : KernelProgram)) issued.programs loads.programs
    (by simp)
  obtain ⟨keptMaps, maps, sameMaps⟩ := close_entries manifest.maps (·.name) KernelMap.spec
    (fun spec => spec) (fun id there => Nat.le_add_right_of_le (issued.maps id there)) maps
    (by simpa using listed)
  have there := (congrArg (Table.get? · id) loads.object).trans
    ((Table.get?_insert ..).trans (if_pos rfl))
  refine ⟨_, closeObject_there there, ?_, ?_, keptMaps, maps, by simpa using sameMaps⟩
  · simp only [log, loads.object, Table.erase_insert]
  · refine programs.trans (congrArg _ ?_)
    simpa using samePrograms

/-- What is left in the tables once an image was loaded and closed again: of all that have one name in
its manifest, all but the last. -/
structure Leaves (k k' : Kernel) (manifest : Manifest) : Prop where
  objects : k'.objects = k.objects
  programs : k'.programs.entries = k.programs.entries ++
    (shadowed .program (·.name) (k.lastId + 1) manifest.entryPoints).map fun e => (e.1, ⟨e.2.name, e.2.sectionName⟩)
  maps : ∃ kept : List (MapId × KernelMap), k'.maps.entries = k.maps.entries ++ kept ∧
    kept.map (fun e => (e.1, e.2.spec)) =
      shadowed .map (·.name) (k.lastId + 1 + manifest.entryPoints.length) manifest.maps

theorem Leaves.same_iff {manifest : Manifest} (leaves : k.Leaves k' manifest) :
    k.SameTables k' ↔ manifest.NamesOnce := by
  obtain ⟨kept, maps, listed⟩ := leaves.maps
  have programs := leaves.programs
  rw [Manifest.NamesOnce, ← shadowed_eq_nil_iff .program _ (k.lastId + 1),
    ← shadowed_eq_nil_iff .map _ (k.lastId + 1 + manifest.entryPoints.length), ← listed]
  constructor
  · intro same
    rw [same.programs, List.self_eq_append_right, List.map_eq_nil_iff] at programs
    rw [same.maps, List.self_eq_append_right] at maps
    exact ⟨programs, List.map_eq_nil_iff.mpr maps⟩
  · rintro ⟨noProgram, noMap⟩
    rw [noProgram, List.map_nil, List.append_nil] at programs
    rw [List.map_eq_nil_iff.mp noMap, List.append_nil] at maps
    exact ⟨leaves.objects, congrArg Table.mk programs, congrArg Table.mk maps⟩

theorem closed_leaves {content : FileContent} {object : ObjectId} {k₁ k₂ : Kernel} (issued : k.Issued)
    (opened : k.openObject content = (.ok object, k₁)) (loaded : k₁.loadObject object = (.ok (), k₂)) :
    ∃ bytes manifest k₃, content = .bytes bytes ∧ Image.decode bytes = .ok manifest ∧
      k₂.closeObject object = .ok k₃ ∧ k.Leaves k₃ manifest := by
  have ready := issued.opened opened
  obtain ⟨number, bytes, manifest, content, decoded, rfl⟩ := openObject_made opened
  obtain ⟨o, there, loads⟩ := loadObject_loads ready loaded
  cases Option.some.inj (there.symm.trans ((Table.get?_insert ..).trans (if_pos rfl)))
  obtain ⟨k₃, closed, objects, programs, maps⟩ := loads.closed ready
  have absent : object ∉ k.objects.keys := fun there =>
    absurd (issued.objects object there) (by omega)
  refine ⟨bytes, manifest, k₃, content, decoded, closed, ?_, programs, maps⟩
  rw [objects, Table.erase_insert, Table.erase_of_absent absent]

/-! Loads that fail. -/

theorem openObject_same {content : FileContent} {e : Errno}
    (refused : k.openObject content = (.error e, k')) : k.SameTables k' := by
  cases openObject_refused refused
  exact ⟨rfl, rfl, rfl⟩

theorem loadObject_same {id : ObjectId} {e : Errno} (refused : k.loadObject id = (.error e, k')) :
    k.SameTables k' := by
  obtain ⟨nextLoad, rfl⟩ := loadObject_faults refused
  exact ⟨rfl, rfl, rfl⟩

theorem load_same {image : Image} {failure : Failure} (issued : k.Issued)
    (refused : Extension.load k image = (.error failure, k')) : k.SameTables k' := by
  unfold Extension.load at refused
  dsimp only at refused
  rcases opened : k.openObject (.bytes image.bytes) with ⟨e | object, k₁⟩
  · simp only [opened] at refused
    cases refused
    exact openObject_same opened
  · simp only [opened] at refused
    split at refused
    · cases refused
    · rename_i e k₂ failed
      obtain ⟨number, _, manifest, _, _, rfl⟩ := openObject_made opened
      have absent : object ∉ k.objects.keys := fun there =>
        absurd (issued.objects object there) (by omega)
      have same := loadObject_same failed
      have there : k₂.objects.get? object = some ⟨manifest, false, ∅, ∅⟩ := by
        rw [same.objects, Table.get?_insert, if_pos rfl]
      rw [closeObject_there there] at refused
      cases refused
      refine ⟨?_, same.programs, same.maps⟩
      simp only [log, Except.toOption, Option.getD_some, same.objects, Table.erase_insert,
        Table.erase_of_absent absent]

/-- To open an image, load it and close it again brings the tables back exactly if its manifest gives no
name twice; otherwise all programs and maps stay whose name is given again later. What fails on the way,
from the opening on, changes no table. -/
theorem closing_restores_unless_name_repeats (cpus : Nat) (features : Features) (calls : List Call) :
    let k := (new cpus features).afterAll calls
    (∀ content object k₁ k₂, k.openObject content = (.ok object, k₁) →
      k₁.loadObject object = (.ok (), k₂) →
      ∃ bytes manifest k₃, content = .bytes bytes ∧ Image.decode bytes = .ok manifest ∧
        k₂.closeObject object = .ok k₃ ∧ k.Leaves k₃ manifest ∧
        (k.SameTables k₃ ↔ manifest.NamesOnce)) ∧
    (∀ content e k₁, k.openObject content = (.error e, k₁) → k.SameTables k₁) ∧
    (∀ object e k₁, k.loadObject object = (.error e, k₁) → k.SameTables k₁) ∧
    ∀ image failure k₁, Extension.load k image = (.error failure, k₁) → k.SameTables k₁ := by
  intro k
  have issued : k.Issued := afterAll_issued (new_issued cpus features) calls
  refine ⟨fun content object k₁ k₂ opened loaded => ?_, fun _ _ _ => openObject_same,
    fun _ _ _ => loadObject_same, fun _ _ _ => load_same issued⟩
  obtain ⟨bytes, manifest, k₃, content, decoded, closed, leaves⟩ := closed_leaves issued opened loaded
  exact ⟨bytes, manifest, k₃, content, decoded, closed, leaves, leaves.same_iff⟩

def twins : Manifest :=
  { Manifest.new "twin" with entryPoints := [⟨"probe", "kprobe/a", false⟩, ⟨"probe", "kprobe/b", false⟩] }

/-- The first of two programs of one name is still there when their object is closed. -/
theorem repeated_name_stays :
    let k := new 1 {}
    let (opened, k₁) := k.openObject (.bytes (Image.encode twins))
    let (loaded, k₂) := k₁.loadObject ⟨1⟩
    opened.toOption = some ⟨1⟩ ∧ loaded.toOption = some () ∧ k.programs.entries = [] ∧
      (k₂.closeObject ⟨1⟩).toOption.map (·.programs.entries) = some [(⟨2⟩, ⟨"probe", "kprobe/a"⟩)] := by
  decide +kernel

end Kernel

end LoadableSched
