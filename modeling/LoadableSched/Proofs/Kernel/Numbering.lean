import LoadableSched.Proofs.Kernel.Stepping

/-!
The numbers of objects, programs and maps. Every one in the kernel's tables was given out before, so that
what a load adds stands behind all that is there, in the order of the image's manifest.
-/

namespace LoadableSched

instance (kind : IdKind) : Std.Asymm (· < · : Id kind → Id kind → Prop) :=
  ⟨fun _ _ less more => Nat.lt_asymm less more⟩

variable {α : Type} {kind : IdKind} {k k' : Kernel}

def numbered (kind : IdKind) (last : Nat) : List α → List (Id kind × α)
  | [] => []
  | item :: rest => (⟨last + 1⟩, item) :: numbered kind (last + 1) rest

theorem number_bounds {last : Nat} {items : List α} {e : Id kind × α} (member : e ∈ numbered kind last items) :
    last < e.1.number ∧ e.1.number ≤ last + items.length := by
  induction items generalizing last with
  | nil => cases member
  | cons item rest ih =>
    rw [List.length_cons]
    rcases List.mem_cons.mp member with rfl | later
    · exact ⟨Nat.lt_succ_self last, Nat.add_le_add_left (Nat.le_add_left 1 _) last⟩
    · obtain ⟨above, below⟩ := ih later
      omega

namespace Kernel

/-- What is in the tables of objects, programs and maps has a number that was given out. -/
structure Issued (k : Kernel) : Prop where
  objects : ∀ id ∈ k.objects.keys, id.number ≤ k.lastId
  programs : ∀ id ∈ k.programs.keys, id.number ≤ k.lastId
  maps : ∀ id ∈ k.maps.keys, id.number ≤ k.lastId

theorem issued_insert {β : Type} {t : Table (Id kind) β} {last : Nat}
    (issued : ∀ id ∈ t.keys, id.number ≤ last) (v : β) :
    (t.insert ⟨last + 1⟩ v).entries = t.entries ++ [(⟨last + 1⟩, v)] ∧
      ∀ id ∈ (t.insert ⟨last + 1⟩ v).keys, id.number ≤ last + 1 := by
  refine ⟨Table.entries_insert_last fun id there => Nat.lt_succ_of_le (issued id there), fun id there => ?_⟩
  rcases (Table.mem_keys_insertEntry _ _ _ _).mp there with rfl | before
  · exact Nat.le_refl _
  · exact Nat.le_succ_of_le (issued id before)

/-! Loading. -/

theorem addPrograms_entries (names : Table String ProgramId) (entries : List EntryPoint)
    (issued : ∀ id ∈ k.programs.keys, id.number ≤ k.lastId) :
    (k.addPrograms names entries).1 =
        ((numbered .program k.lastId entries).map fun e => (e.2.name, e.1)).foldl (fun t (n, id) => t.insert n id)
          names ∧
      (k.addPrograms names entries).2.programs.entries = k.programs.entries ++
        (numbered .program k.lastId entries).map (fun e => (e.1, ⟨e.2.name, e.2.sectionName⟩)) ∧
      (k.addPrograms names entries).2.lastId = k.lastId + entries.length ∧
      (k.addPrograms names entries).2.objects = k.objects ∧
      (k.addPrograms names entries).2.maps = k.maps := by
  induction entries generalizing k names with
  | nil => exact ⟨rfl, (List.append_nil _).symm, rfl, rfl, rfl⟩
  | cons e rest ih =>
    obtain ⟨last, next⟩ := issued_insert issued (⟨e.name, e.sectionName⟩ : KernelProgram)
    obtain ⟨named, programs, number, objects, maps⟩ := ih
      (k := { k with
        lastId := k.lastId + 1
        programs := k.programs.insert ⟨k.lastId + 1⟩ ⟨e.name, e.sectionName⟩ })
      (names.insert e.name ⟨k.lastId + 1⟩) next
    refine ⟨named, ?_, ?_, objects, maps⟩
    · rw [addPrograms]
      refine programs.trans ?_
      rw [last, List.append_assoc]
      rfl
    · rw [addPrograms]
      refine number.trans ?_
      simp only [List.length_cons]
      omega

theorem addMaps_entries (names : Table String MapId) (specs : List MapSpec)
    (issued : ∀ id ∈ k.maps.keys, id.number ≤ k.lastId) :
    (k.addMaps names specs).1 =
        ((numbered .map k.lastId specs).map fun e => (e.2.name, e.1)).foldl (fun t (n, id) => t.insert n id)
          names ∧
      (∃ made : List (MapId × KernelMap), made.map (fun e => (e.1, e.2.spec)) = numbered .map k.lastId specs ∧
        (k.addMaps names specs).2.maps.entries = k.maps.entries ++ made) ∧
      (k.addMaps names specs).2.lastId = k.lastId + specs.length ∧
      (k.addMaps names specs).2.objects = k.objects ∧
      (k.addMaps names specs).2.programs = k.programs := by
  induction specs generalizing k names with
  | nil => exact ⟨rfl, ⟨[], rfl, (List.append_nil _).symm⟩, rfl, rfl, rfl⟩
  | cons spec rest ih =>
    obtain ⟨last, next⟩ := issued_insert issued
      (⟨spec, (k.memory.newStore spec.kind spec.layout).1, true⟩ : KernelMap)
    obtain ⟨named, ⟨made, listed, maps⟩, number, objects, programs⟩ := ih
      (k := { k.setMemory (k.memory.newStore spec.kind spec.layout).2 with
        lastId := k.lastId + 1
        maps := k.maps.insert ⟨k.lastId + 1⟩ ⟨spec, (k.memory.newStore spec.kind spec.layout).1, true⟩ })
      (names.insert spec.name ⟨k.lastId + 1⟩) next
    refine ⟨named, ⟨(⟨k.lastId + 1⟩, ⟨spec, (k.memory.newStore spec.kind spec.layout).1, true⟩) :: made,
      List.cons_eq_cons.mpr ⟨rfl, listed⟩, ?_⟩, ?_, objects, programs⟩
    · rw [addMaps]
      refine maps.trans ?_
      rw [last, List.append_assoc]
      rfl
    · rw [addMaps]
      refine number.trans ?_
      simp only [List.length_cons]
      omega

/-- What a load that succeeds puts into the tables. -/
structure Loads (k k' : Kernel) (id : ObjectId) (manifest : Manifest) : Prop where
  object : k'.objects = k.objects.insert id ⟨manifest, true,
    .ofList ((numbered .program k.lastId manifest.entryPoints).map fun e => (e.2.name, e.1)),
    .ofList ((numbered .map (k.lastId + manifest.entryPoints.length) manifest.maps).map fun e =>
      (e.2.name, e.1))⟩
  programs : k'.programs.entries = k.programs.entries ++
    (numbered .program k.lastId manifest.entryPoints).map fun e => (e.1, ⟨e.2.name, e.2.sectionName⟩)
  maps : ∃ made : List (MapId × KernelMap), k'.maps.entries = k.maps.entries ++ made ∧
    made.map (fun e => (e.1, e.2.spec)) =
      numbered .map (k.lastId + manifest.entryPoints.length) manifest.maps
  lastId : k'.lastId = k.lastId + manifest.entryPoints.length + manifest.maps.length

theorem loadObject_loads {id : ObjectId} (issued : k.Issued) (made : k.loadObject id = (.ok (), k')) :
    ∃ o, k.objects.get? id = some o ∧ k.Loads k' id o.manifest := by
  unfold loadObject at made
  split at made
  · cases made
  · split at made
    · cases made
    · rename_i o found
      refine ⟨o, found, ?_⟩
      split at made
      · cases made
      · split at made
        · cases made
        · obtain ⟨programNames, programs, number, objects, sameMaps⟩ :=
            addPrograms_entries ∅ o.manifest.entryPoints issued.programs
          obtain ⟨mapNames, ⟨new, listed, maps⟩, number', objects', samePrograms⟩ :=
            addMaps_entries (k := (k.addPrograms ∅ o.manifest.entryPoints).2) ∅ o.manifest.maps (by
                rw [sameMaps, number]
                exact fun id there => Nat.le_add_right_of_le (issued.maps id there))
          cases made
          rw [number] at mapNames listed number'
          refine ⟨?_, samePrograms ▸ programs, ⟨new, sameMaps ▸ maps, listed⟩, number'⟩
          simp only [objects', objects, programNames, mapNames]
          rfl

theorem closeObject_there {id : ObjectId} {o : KernelObject} (there : k.objects.get? id = some o) :
    k.closeObject id = .ok ({ k with
      objects := k.objects.erase id
      programs := o.programs.values.foldl Table.erase k.programs
      maps := o.maps.values.foldl Table.erase k.maps }.log (.object id)) := by
  simp only [closeObject, there]

theorem Issued.opened {content : FileContent} {object : ObjectId} (issued : k.Issued)
    (made : k.openObject content = (.ok object, k')) : k'.Issued := by
  obtain ⟨number, _, manifest, _, _, rfl⟩ := openObject_made made
  obtain rfl : object = ⟨k.lastId + 1⟩ := congrArg Id.mk number
  exact ⟨(issued_insert issued.objects _).2, fun id there => Nat.le_succ_of_le (issued.programs id there),
    fun id there => Nat.le_succ_of_le (issued.maps id there)⟩

/-! Numbers along a run. -/

theorem Issued.loaded {id : ObjectId} (issued : k.Issued) (made : k.loadObject id = (.ok (), k')) :
    k'.Issued := by
  obtain ⟨o, there, loads⟩ := loadObject_loads issued made
  obtain ⟨new, maps, listed⟩ := loads.maps
  have lastId := loads.lastId
  refine ⟨fun other present => ?_, fun p present => ?_, fun m present => ?_⟩
  · rw [loads.object] at present
    have before : other ∈ k.objects.keys := by
      rcases (Table.mem_keys_insertEntry _ _ _ _).mp present with rfl | before
      · exact (Table.contains_iff_mem_keys _ _).mp (Table.contains_iff_exists.mpr ⟨o, there⟩)
      · exact before
    have := issued.objects other before
    omega
  · rw [Table.keys, loads.programs, List.map_append, List.map_map, List.mem_append] at present
    rcases present with before | new
    · have := issued.programs p before
      omega
    · obtain ⟨e, member, rfl⟩ := List.mem_map.mp new
      have := (number_bounds member).2
      simp only [Function.comp_apply]
      omega
  · rw [Table.keys, maps, List.map_append, List.mem_append] at present
    rcases present with before | added
    · have := issued.maps m before
      omega
    · obtain ⟨e, member, rfl⟩ := List.mem_map.mp added
      have numbered : (e.1, e.2.spec) ∈ _ := listed ▸ List.mem_map_of_mem member
      have := (number_bounds numbered).2
      dsimp only at this
      omega

theorem Issued.closed {id : ObjectId} (issued : k.Issued) (made : k.closeObject id = .ok k') :
    k'.Issued := by
  cases there : k.objects.get? id with
  | none => simp [closeObject, there] at made
  | some o =>
    cases (closeObject_there there).symm.trans made
    exact ⟨fun other present => issued.objects other (Table.keys_foldl_erase [id] _ present),
      fun p present => issued.programs p (Table.keys_foldl_erase _ _ present),
      fun m present => issued.maps m (Table.keys_foldl_erase _ _ present)⟩

theorem Issued.aside (issued : k.Issued) (objects : k'.objects = k.objects)
    (programs : k'.programs = k.programs) (maps : k'.maps.keys = k.maps.keys) (lastId : k.lastId ≤ k'.lastId) :
    k'.Issued where
  objects id there := Nat.le_trans (issued.objects id (objects ▸ there)) lastId
  programs id there := Nat.le_trans (issued.programs id (programs ▸ there)) lastId
  maps id there := Nat.le_trans (issued.maps id (maps ▸ there)) lastId

theorem after_issued (issued : k.Issued) (call : Call) : (k.after call).Issued := by
  cases after_step k call with
  | idles none same => exact issued.aside same.objects same.programs same.mapKeys (Nat.le_of_eq same.lastId.symm)
  | opens content object is made => exact issued.opened made
  | loads object is made => exact issued.loaded made
  | closes object is made => exact issued.closed made
  | joins link one joins =>
    exact issued.aside joins.objects joins.programs (congrArg Table.keys joins.maps)
      (joins.lastId ▸ Nat.le_succ k.lastId)

theorem afterAll_issued (issued : k.Issued) (calls : List Call) : (k.afterAll calls).Issued := by
  induction calls generalizing k with
  | nil => exact issued
  | cons call rest ih => exact ih (after_issued issued call)

theorem new_issued (cpus : Nat) (features : Features) : (new cpus features).Issued where
  objects _ there := by cases there
  programs _ there := by cases there
  maps _ there := by cases there

end Kernel

end LoadableSched
