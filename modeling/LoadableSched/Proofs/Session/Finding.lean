import LoadableSched.Proofs.Kernel.Giving
import LoadableSched.Proofs.Kernel.Restoring

/-!
What can be found in a loaded object, and stays to be found until it is closed: the programs and the maps of
its manifest, whatever else is loaded or closed.
-/

namespace LoadableSched

variable {α : Type} {kind : IdKind} {k k' : Kernel}

theorem findEntry_numbered {last : Nat} {items : List α} {e : Id kind × α} (listed : e ∈ numbered kind last items) :
    Table.findEntry e.1 (numbered kind last items) = some e.2 := by
  induction items generalizing last with
  | nil => cases listed
  | cons item rest ih =>
    rw [numbered, Table.findEntry]
    rcases List.mem_cons.mp listed with rfl | later
    · exact if_pos rfl
    · have above := (number_bounds later).1
      have other : (⟨last + 1⟩ : Id kind) ≠ e.1 := fun same => Nat.lt_irrefl _ (same ▸ above)
      rw [if_neg other, ih later]

theorem map_snd_numbered (kind : IdKind) (last : Nat) (items : List α) :
    (numbered kind last items).map (·.2) = items := by
  induction items generalizing last with
  | nil => rfl
  | cons item rest ih => exact congrArg (item :: ·) (ih (last + 1))

theorem get?_names {name : α → String} {last : Nat} {items : List α} (once : (items.map name).Nodup) (n : String) :
    match items.find? (name · = n) with
    | some item => ∃ id : Id kind, (id, item) ∈ numbered kind last items ∧
        (Table.ofList ((numbered kind last items).map fun e => (name e.2, e.1))).get? n = some id
    | none => (Table.ofList ((numbered kind last items).map fun e => (name e.2, e.1))).get? n = none := by
  have distinct : (((numbered kind last items).map fun e => (name e.2, e.1)).map (·.1)).Nodup := by
    rw [List.map_map]
    exact (map_numbered kind name last items).symm ▸ once
  split
  · next item found =>
    have there : item ∈ (numbered kind last items).map (·.2) := by
      rw [map_snd_numbered]
      exact List.mem_of_find?_eq_some found
    obtain ⟨e, listed, rfl⟩ := List.mem_map.mp there
    have called : name e.2 = n := by simpa using List.find?_some found
    exact ⟨e.1, listed, (Table.get?_ofList_eq_some distinct).mpr (List.mem_map.mpr ⟨e, listed, by rw [called]⟩)⟩
  · next none =>
    refine Option.eq_none_iff_forall_ne_some.mpr fun id there => ?_
    obtain ⟨e, listed, same⟩ := List.mem_map.mp ((Table.get?_ofList_eq_some distinct).mp there)
    have member : e.2 ∈ items := map_snd_numbered kind last items ▸ List.mem_map_of_mem listed
    have called : name e.2 = n := congrArg Prod.fst same
    exact List.find?_eq_none.mp none e.2 member (decide_eq_true called)

namespace Kernel

def Named (k : Kernel) : Prop :=
  ∀ id o, k.objects.get? id = some o →
    (∀ p ∈ o.programs.values, p.number ≤ k.lastId) ∧ ∀ q ∈ o.maps.values, q.number ≤ k.lastId

def programNames (first : Nat) (m : Manifest) : Table String ProgramId :=
  .ofList ((numbered .program first m.entryPoints).map fun e => (e.2.name, e.1))

def mapNames (first : Nat) (m : Manifest) : Table String MapId :=
  .ofList ((numbered .map (first + m.entryPoints.length) m.maps).map fun e => (e.2.name, e.1))

theorem programNames_bounds (first : Nat) (m : Manifest) :
    ∀ p ∈ (programNames first m).values, first < p.number ∧ p.number ≤ first + m.entryPoints.length :=
  fun _ => @findable_bounds _ _ EntryPoint.name first m.entryPoints _

theorem mapNames_bounds (first : Nat) (m : Manifest) : ∀ q ∈ (mapNames first m).values,
    first + m.entryPoints.length < q.number ∧ q.number ≤ first + m.entryPoints.length + m.maps.length :=
  fun _ => @findable_bounds _ _ MapSpec.name (first + m.entryPoints.length) m.maps _

def lastOf (first : Nat) (m : Manifest) : Nat := first + m.entryPoints.length + m.maps.length

/-- An object is loaded with all that its manifest declares, under numbers from the one after `first` on
that no other object has. -/
structure Offers (k : Kernel) (id : ObjectId) (first : Nat) (m : Manifest) : Prop where
  object : k.objects.get? id = some ⟨m, true, programNames first m, mapNames first m⟩
  programs : ∀ e ∈ numbered .program first m.entryPoints, k.programs.get? e.1 = some ⟨e.2.name, e.2.sectionName⟩
  maps : ∀ e ∈ numbered .map (first + m.entryPoints.length) m.maps,
    (k.maps.get? e.1).map (·.spec) = some e.2
  lastId : lastOf first m ≤ k.lastId
  apart : ∀ other o, other ≠ id → k.objects.get? other = some o →
    (∀ p ∈ o.programs.values, p.number ≤ first ∨ lastOf first m < p.number) ∧
      ∀ q ∈ o.maps.values, q.number ≤ first ∨ lastOf first m < q.number

theorem Named.mono (named : k.Named) (objects : ∀ id o, k'.objects.get? id = some o → k.objects.get? id = some o)
    (lastId : k.lastId ≤ k'.lastId) : k'.Named := fun id o there =>
  ⟨fun p member => Nat.le_trans ((named id o (objects id o there)).1 p member) lastId,
    fun q member => Nat.le_trans ((named id o (objects id o there)).2 q member) lastId⟩

theorem Named.insert {object : ObjectId} {new : KernelObject} (named : k.Named)
    (objects : k'.objects = k.objects.insert object new) (lastId : k.lastId ≤ k'.lastId)
    (programs : ∀ p ∈ new.programs.values, p.number ≤ k'.lastId)
    (maps : ∀ q ∈ new.maps.values, q.number ≤ k'.lastId) : k'.Named := fun id o there => by
  rw [objects, Table.get?_insert] at there
  split at there
  · cases Option.some.inj there
    exact ⟨programs, maps⟩
  · obtain ⟨below, below'⟩ := named id o there
    exact ⟨fun p member => Nat.le_trans (below p member) lastId,
      fun q member => Nat.le_trans (below' q member) lastId⟩

theorem after_named (issued : k.Issued) (named : k.Named) (call : Call) : (k.after call).Named := by
  cases after_step k call with
  | idles none same =>
    exact named.mono (fun id o there => same.objects ▸ there) (Nat.le_of_eq same.lastId.symm)
  | opens content object is made =>
    obtain ⟨number, _, manifest, _, _, same⟩ := openObject_made made
    have objects := congrArg Kernel.objects same
    exact named.insert objects (same ▸ Nat.le_succ _) (fun _ member => (List.not_mem_nil member).elim)
      fun _ member => (List.not_mem_nil member).elim
  | loads object is made =>
    obtain ⟨o, there, loads⟩ := loadObject_loads issued made
    have lastId := loads.lastId
    refine named.insert loads.object (by omega) (fun p member => ?_) fun q member => ?_
    · have bounds := programNames_bounds k.lastId o.manifest p member
      omega
    · have bounds := mapNames_bounds k.lastId o.manifest q member
      omega
  | closes object is made =>
    obtain ⟨_, _, objects⟩ := closeObject_made made
    refine named.mono (fun id o there => ?_) (Nat.le_of_eq (closeObject_aside made).2.2.symm)
    rw [objects] at there
    split at there
    · cases there
    · exact there
  | joins link one joins =>
    exact named.mono (fun id o there => joins.objects ▸ there) (joins.lastId ▸ Nat.le_succ _)

theorem afterAll_named (issued : k.Issued) (named : k.Named) (calls : List Call) : (k.afterAll calls).Named := by
  induction calls generalizing k with
  | nil => exact named
  | cons call rest ih => exact ih (after_issued issued call) (after_named issued named call)

namespace Offers

variable {id : ObjectId} {first : Nat} {m : Manifest}

theorem number_le (offers : k.Offers id first m) (issued : k.Issued) : id.number ≤ k.lastId :=
  issued.objects id ((Table.contains_iff_mem_keys _ _).mp (Table.contains_iff_exists.mpr ⟨_, offers.object⟩))

theorem program_apart (offers : k.Offers id first m) {other : ObjectId} {o : KernelObject} (different : other ≠ id)
    (there : k.objects.get? other = some o) {e : ProgramId × EntryPoint}
    (listed : e ∈ numbered .program first m.entryPoints) : e.1 ∉ o.programs.values := fun member => by
  have bounds := number_bounds listed
  have outside := (offers.apart other o different there).1 _ member
  unfold lastOf at outside
  omega

theorem map_apart (offers : k.Offers id first m) {other : ObjectId} {o : KernelObject} (different : other ≠ id)
    (there : k.objects.get? other = some o) {e : MapId × MapSpec}
    (listed : e ∈ numbered .map (first + m.entryPoints.length) m.maps) : e.1 ∉ o.maps.values := fun member => by
  have bounds := number_bounds listed
  have outside := (offers.apart other o different there).2 _ member
  unfold lastOf at outside
  omega

theorem idle (offers : k.Offers id first m) (same : k.Idles k') : k'.Offers id first m where
  object := same.objects ▸ offers.object
  programs := same.programs ▸ offers.programs
  maps e listed := by
    have spec := congrArg (Option.map Prod.fst) (same.maps e.1)
    rw [Option.map_map, Option.map_map] at spec
    exact spec.trans (offers.maps e listed)
  lastId := same.lastId ▸ offers.lastId
  apart := same.objects ▸ offers.apart

theorem join (offers : k.Offers id first m) {link : LinkId} (joins : k.Joins k' link) : k'.Offers id first m where
  object := joins.objects ▸ offers.object
  programs := joins.programs ▸ offers.programs
  maps := joins.maps ▸ offers.maps
  lastId := Nat.le_trans offers.lastId (joins.lastId ▸ Nat.le_succ _)
  apart := joins.objects ▸ offers.apart

theorem opened (offers : k.Offers id first m) (issued : k.Issued) {content : FileContent} {object : ObjectId}
    (made : k.openObject content = (.ok object, k')) : k'.Offers id first m := by
  obtain ⟨number, _, manifest, _, _, rfl⟩ := openObject_made made
  have different : id ≠ object := fun same => by
    have below := offers.number_le issued
    rw [same, number] at below
    exact Nat.not_succ_le_self _ below
  refine ⟨?_, offers.programs, offers.maps, Nat.le_succ_of_le offers.lastId, fun other o elsewhere there => ?_⟩
  · exact (Table.get?_insert ..).trans ((if_neg different).trans offers.object)
  · rw [Table.get?_insert] at there
    split at there
    · cases Option.some.inj there
      exact ⟨fun _ member => (List.not_mem_nil member).elim, fun _ member => (List.not_mem_nil member).elim⟩
    · exact offers.apart other o elsewhere there

theorem loaded (offers : k.Offers id first m) (issued : k.Issued) {object : ObjectId}
    (made : k.loadObject object = (.ok (), k')) : k'.Offers id first m := by
  obtain ⟨o, there, loads⟩ := loadObject_loads issued made
  obtain ⟨_, o', there', fresh, _⟩ := loadObject_aside made
  have different : id ≠ object := fun same => by
    rw [← same, offers.object] at there'
    cases Option.some.inj there'
    cases fresh
  obtain ⟨new, entries, _⟩ := loads.maps
  have lastId := loads.lastId
  have below := offers.lastId
  refine ⟨?_, fun e listed => ?_, fun e listed => ?_, by omega, fun other o' elsewhere there' => ?_⟩
  · rw [loads.object]
    exact (Table.get?_insert ..).trans ((if_neg different).trans offers.object)
  · have before := offers.programs e listed
    rw [Table.get?] at before ⊢
    rw [loads.programs, Table.findEntry_append, before]
    rfl
  · have before := offers.maps e listed
    obtain ⟨found, there, spec⟩ := Option.map_eq_some_iff.mp before
    rw [Table.get?] at there ⊢
    rw [entries, Table.findEntry_append, there]
    exact congrArg some spec
  · rw [loads.object, Table.get?_insert] at there'
    split at there'
    · cases Option.some.inj there'
      refine ⟨fun p member => .inr ?_, fun q member => .inr ?_⟩
      · exact Nat.lt_of_le_of_lt below (programNames_bounds k.lastId o.manifest p member).1
      · have above := (mapNames_bounds k.lastId o.manifest q member).1
        omega
    · exact offers.apart other o' elsewhere there'

theorem closed (offers : k.Offers id first m) {object : ObjectId} (different : object ≠ id)
    (made : k.closeObject object = .ok k') : k'.Offers id first m := by
  cases there : k.objects.get? object with
  | none => simp [closeObject, there] at made
  | some o =>
    cases (closeObject_there there).symm.trans made
    refine ⟨?_, fun e listed => ?_, fun e listed => ?_, offers.lastId, fun other o' elsewhere there' => ?_⟩
    · exact (Table.get?_erase ..).trans ((if_neg (Ne.symm different)).trans offers.object)
    · exact (Table.get?_foldl_erase_of_notMem (offers.program_apart different there listed) _).trans
        (offers.programs e listed)
    · dsimp only [log]
      rw [Table.get?_foldl_erase_of_notMem (offers.map_apart different there listed)]
      exact offers.maps e listed
    · dsimp only [log] at there'
      rw [Table.get?_erase] at there'
      split at there'
      · cases there'
      · exact offers.apart other o' elsewhere there'

end Offers

theorem after_offers {id : ObjectId} {first : Nat} {m : Manifest} (issued : k.Issued)
    (offers : k.Offers id first m) {call : Call} (kept : call ≠ .closeObject id) :
    (k.after call).Offers id first m := by
  cases after_step k call with
  | idles none same => exact offers.idle same
  | opens content object is made => exact offers.opened issued made
  | loads object is made => exact offers.loaded issued made
  | closes object is made => exact offers.closed (fun same => kept (same ▸ is)) made
  | joins link one joins => exact offers.join joins

theorem afterAll_offers {id : ObjectId} {first : Nat} {m : Manifest} (issued : k.Issued)
    (offers : k.Offers id first m) {calls : List Call} (kept : .closeObject id ∉ calls) :
    (k.afterAll calls).Offers id first m := by
  induction calls generalizing k with
  | nil => exact offers
  | cons call rest ih =>
    rw [List.mem_cons, not_or] at kept
    exact ih (after_issued issued call) (after_offers issued offers (Ne.symm kept.1)) kept.2

namespace Offers

variable {id : ObjectId} {first : Nat} {m : Manifest}

theorem findProgram (offers : k.Offers id first m) (once : m.NamesOnce) (name : String) :
    match m.entryPoint? name with
    | some e => ∃ p, k.findProgram? id name = some ⟨p, e.name, e.sectionName⟩
    | none => k.findProgram? id name = none := by
  have names := @get?_names _ .program EntryPoint.name first m.entryPoints once.1 name
  rw [Manifest.entryPoint?]
  split at names
  · next e found =>
    obtain ⟨p, listed, named⟩ := names
    rw [found]
    refine ⟨p, ?_⟩
    simp only [findProgram?, offers.object, programNames, named, offers.programs _ listed, Option.bind_eq_bind,
      Option.bind_some]
  · next none =>
    rw [none]
    simp only [findProgram?, offers.object, programNames, names, Option.bind_eq_bind, Option.bind_some,
      Option.bind_none]

theorem findMap (offers : k.Offers id first m) (once : m.NamesOnce) (name : String) :
    match m.map? name with
    | some spec => ∃ q, k.findMap? id name = some ⟨q, spec⟩ ∧
        (spec.kind ≠ .structOps → ∃ store, k.mapStore? q = some store)
    | none => k.findMap? id name = none := by
  have names := @get?_names _ .map MapSpec.name (first + m.entryPoints.length) m.maps once.2 name
  rw [Manifest.map?]
  split at names
  · next spec found =>
    obtain ⟨q, listed, named⟩ := names
    obtain ⟨made, there, rfl⟩ := Option.map_eq_some_iff.mp (offers.maps _ listed)
    rw [found]
    refine ⟨q, ?_, fun readable => ⟨made.store, ?_⟩⟩
    · simp only [findMap?, offers.object, mapNames, named, there, Option.bind_eq_bind, Option.bind_some]
    · simp only [mapStore?, there, if_neg readable]
  · next none =>
    rw [none]
    simp only [findMap?, offers.object, mapNames, names, Option.bind_eq_bind, Option.bind_some, Option.bind_none]

end Offers

theorem get?_new {β : Type} {t t' : Table (Id kind) β} {last : Nat} {new : List (Id kind × β)} {id : Id kind}
    (issued : ∀ id ∈ t.keys, id.number ≤ last) (entries : t'.entries = t.entries ++ new) (above : last < id.number) :
    t'.get? id = Table.findEntry id new := by
  have absent : t.get? id = none := Table.get?_eq_none_iff.mpr fun there =>
    Nat.lt_irrefl _ (Nat.lt_of_lt_of_le above (issued id there))
  rw [Table.get?] at absent ⊢
  rw [entries, Table.findEntry_append, absent, Option.none_or]

theorem loadObject_offers {id : ObjectId} {o : KernelObject} (issued : k.Issued) (named : k.Named)
    (there : k.objects.get? id = some o) (made : k.loadObject id = (.ok (), k')) :
    k'.Offers id k.lastId o.manifest := by
  obtain ⟨o', there', loads⟩ := loadObject_loads issued made
  cases Option.some.inj (there.symm.trans there')
  obtain ⟨new, entries, listed⟩ := loads.maps
  refine ⟨?_, fun e member => ?_, fun e member => ?_, Nat.le_of_eq loads.lastId.symm,
    fun other o' elsewhere there' => ?_⟩
  · rw [loads.object]
    exact (Table.get?_insert ..).trans (if_pos rfl)
  · rw [get?_new issued.programs loads.programs (number_bounds member).1,
      Table.findEntry_map e.1 fun e : EntryPoint => (⟨e.name, e.sectionName⟩ : KernelProgram),
      findEntry_numbered member]
    rfl
  · have above := (number_bounds member).1
    rw [get?_new issued.maps entries (by omega), ← Table.findEntry_map, listed, findEntry_numbered member]
  · rw [loads.object, Table.get?_insert, if_neg elsewhere] at there'
    obtain ⟨programs, maps⟩ := named other o' there'
    exact ⟨fun p member => .inl (programs p member), fun q member => .inl (maps q member)⟩

theorem loadObject_ok_iff {id : ObjectId} : (∃ k', k.loadObject id = (.ok (), k')) ↔
    k.faults.nextLoad = none ∧
      ∃ o, k.objects.get? id = some o ∧ o.loaded = false ∧ k.supports o.manifest = true := by
  unfold loadObject
  cases k.faults.nextLoad with
  | some e => simp
  | none =>
    cases k.objects.get? id with
    | none => simp
    | some o =>
      cases loaded : o.loaded <;> cases supported : k.supports o.manifest <;> simp [loaded, supported]

end Kernel

namespace Extension

variable {e : Extension} {image : Image} {m : Manifest}

theorem load_steps (made : load k image = (.ok e, k')) :
    ∃ id k₁, e = ⟨some id, image.manifest⟩ ∧ k.openObject (.bytes image.bytes) = (.ok id, k₁) ∧
      k₁.loadObject id = (.ok (), k') := by
  unfold load at made
  dsimp only at made
  rcases opened : k.openObject (.bytes image.bytes) with ⟨e | id, k₁⟩
  · simp only [opened] at made
    cases made
  · simp only [opened] at made
    split at made
    · next k₂ loaded =>
      cases made
      exact ⟨id, k₁, rfl, rfl, loaded⟩
    · cases made

/-- A native image is loaded unless a fault was injected or a feature is missing. -/
theorem load_ok_iff (fits : m.Fits) (native : Image.native m = .ok image) :
    (∃ e k', load k image = (.ok e, k')) ↔ k.faults.nextLoad = none ∧ k.supports m = true := by
  cases Image.eq_of_native native
  have whole := Image.decode_encode fits
  let object : KernelObject := ⟨m, false, ∅, ∅⟩
  let k₁ : Kernel := { k with
    opens := k.opens + 1
    lastId := k.lastId + 1
    objects := k.objects.insert ⟨k.lastId + 1⟩ object }
  have opened : k.openObject (.bytes (Image.encode m)) = (.ok ⟨k.lastId + 1⟩, k₁) := by
    simp only [Kernel.openObject, whole]
    rfl
  have loads : (∃ k', k₁.loadObject ⟨k.lastId + 1⟩ = (.ok (), k')) ↔
      k.faults.nextLoad = none ∧ k.supports m = true := by
    have there : k₁.objects.get? ⟨k.lastId + 1⟩ = some object := (Table.get?_insert ..).trans (if_pos rfl)
    rw [Kernel.loadObject_ok_iff, there]
    simp [k₁, object, Kernel.supports]
  rw [← loads, load]
  simp only [opened]
  rcases k₁.loadObject ⟨k.lastId + 1⟩ with ⟨e | _, k₂⟩ <;> simp

theorem load_offers (issued : k.Issued) (named : k.Named) (fits : m.Fits) (native : Image.native m = .ok image)
    (made : load k image = (.ok e, k')) :
    ∃ id first, e = ⟨some id, m⟩ ∧ k'.Offers id first m ∧ k'.Issued ∧ k'.Named ∧ k'.features = k.features ∧
      k.supports m = true := by
  cases Image.eq_of_native native
  obtain ⟨id, k₁, rfl, opened, loaded⟩ := load_steps made
  obtain ⟨_, bytes, manifest, content, decoded, same⟩ := Kernel.openObject_made opened
  cases content
  have whole := Image.decode_encode fits
  cases Except.ok.inj (whole.symm.trans decoded)
  have issued₁ : k₁.Issued := issued.opened opened
  have named₁ : k₁.Named := by
    have step := Kernel.after_named issued named (.openObject (.bytes (Image.encode m)))
    rwa [Kernel.after, opened] at step
  have there : k₁.objects.get? id = some ⟨m, false, ∅, ∅⟩ := by
    rw [same]
    exact (Table.get?_insert ..).trans (if_pos rfl)
  obtain ⟨⟨_, features⟩, o, there', _, supported⟩ := Kernel.loadObject_aside loaded
  cases Option.some.inj (there.symm.trans there')
  refine ⟨id, k₁.lastId, rfl, Kernel.loadObject_offers issued₁ named₁ there loaded, issued₁.loaded loaded,
    ?_, ?_, ?_⟩
  · have step := Kernel.after_named issued₁ named₁ (.loadObject id)
    rwa [Kernel.after, loaded] at step
  · rw [features, same]
  · rw [same] at supported
    exact supported

section Declared

variable {id : ObjectId} {first : Nat}

theorem findProgram_declared (offers : k.Offers id first m) (once : m.NamesOnce) (name : String) :
    match m.entryPoint? name with
    | some entry => ∃ p, findProgram ⟨some id, m⟩ k name =
        .ok ⟨p, name, entry.sectionName, Hook.ofSection entry.sectionName⟩
    | none => findProgram ⟨some id, m⟩ k name = .error (.notFound .program name) := by
  have found := offers.findProgram once name
  have live : liveObject ⟨some id, m⟩ = .ok id := rfl
  cases declared : m.entryPoint? name with
  | some entry =>
    rw [declared] at found
    obtain ⟨p, found⟩ := found
    have called : entry.name = name := by simpa using List.find?_some declared
    exact ⟨p, by simp only [findProgram, live, found, called, ProgramHandle.new, bind, Except.bind]⟩
  | none =>
    rw [declared] at found
    simp only [findProgram, live, found, bind, Except.bind]

theorem findMap_declared (offers : k.Offers id first m) (once : m.NamesOnce) (κ ν : Type) [Word κ] [Word ν]
    (name : String) {kind : MapKind} (readable : kind ≠ .structOps) :
    match m.map? name with
    | some spec =>
      if spec.kind = kind ∧ spec.layout.keySize = Word.width κ ∧ spec.layout.valueSize = Word.width ν then
        ∃ q store, findMap ⟨some id, m⟩ k κ ν name kind = .ok ⟨q, name, kind, store⟩
      else ∃ expected actual, findMap ⟨some id, m⟩ k κ ν name kind = .error (.typeMismatch name expected actual)
    | none => findMap ⟨some id, m⟩ k κ ν name kind = .error (.notFound .map name) := by
  have found := offers.findMap once name
  have live : liveObject ⟨some id, m⟩ = .ok id := rfl
  cases declared : m.map? name with
  | some spec =>
    rw [declared] at found
    obtain ⟨q, found, stored⟩ := found
    have called : spec.name = name := by simpa using List.find?_some declared
    dsimp only
    split
    · next same =>
      obtain ⟨rfl, keys, values⟩ := same
      obtain ⟨store, stored⟩ := stored readable
      have fits : spec.layout.fits κ ν = true := by simp [Layout.fits, keys, values]
      exact ⟨q, store, by simp [findMap, live, found, fits, stored, called, bind, Except.bind]⟩
    · next different =>
      by_cases same : spec.kind = kind
      · have misfit : spec.layout.fits κ ν = false := by simpa [Layout.fits, same] using different
        refine ⟨shapeText kind (Word.width κ) (Word.width ν),
          shapeText kind spec.layout.keySize spec.layout.valueSize, ?_⟩
        simp only [findMap, live, found, misfit, same, bind, Except.bind]
        exact (if_neg (not_not_intro rfl)).trans (if_pos rfl)
      · refine ⟨kind.name, spec.kind.name, ?_⟩
        simp only [findMap, live, found, bind, Except.bind]
        exact if_pos same
  | none =>
    rw [declared] at found
    simp only [findMap, live, found, bind, Except.bind]

theorem findStructOps_declared (offers : k.Offers id first m) (once : m.NamesOnce) (name : String) :
    match m.map? name with
    | some spec =>
      if spec.kind = .structOps then ∃ q, findStructOps ⟨some id, m⟩ k name = .ok ⟨q, name⟩
      else ∃ expected actual, findStructOps ⟨some id, m⟩ k name = .error (.typeMismatch name expected actual)
    | none => findStructOps ⟨some id, m⟩ k name = .error (.notFound .structOps name) := by
  have found := offers.findMap once name
  have live : liveObject ⟨some id, m⟩ = .ok id := rfl
  cases declared : m.map? name with
  | some spec =>
    rw [declared] at found
    obtain ⟨q, found, -⟩ := found
    have called : spec.name = name := by simpa using List.find?_some declared
    dsimp only
    split
    · next bound => exact ⟨q, by simp [findStructOps, live, found, bound, called, bind, Except.bind]⟩
    · next other =>
      refine ⟨MapKind.structOps.name, spec.kind.name, ?_⟩
      simp only [findStructOps, live, found, bind, Except.bind]
      exact if_pos other
  | none =>
    rw [declared] at found
    simp only [findStructOps, live, found, bind, Except.bind]

end Declared

/-- After any run an image can be loaded unless a fault was injected or a feature is missing. The extension then
finds what its manifest declares, and nothing else, until its own object is closed. No number is given out twice
in any run. -/
theorem names_are_found_as_declared (cpus : Nat) (features : Features) (before : List Kernel.Call) {m : Manifest}
    (fits : m.Fits) {image : Image} (native : Image.native m = .ok image) :
    let start := (Kernel.new cpus features).afterAll before
    ((∃ e k, load start image = (.ok e, k)) ↔ start.faults.nextLoad = none ∧ start.supports m = true) ∧
    (∀ (later : List Kernel.Call) (e : Extension) (k : Kernel), load start image = (.ok e, k) →
      (∀ id, e.object = some id → .closeObject id ∉ later) →
      (∀ name, match m.entryPoint? name with
        | some entry => ∃ id, e.findProgram (k.afterAll later) name =
            .ok ⟨id, name, entry.sectionName, Hook.ofSection entry.sectionName⟩
        | none => e.findProgram (k.afterAll later) name = .error (.notFound .program name)) ∧
      (∀ (κ ν : Type) [Word κ] [Word ν] (name : String) (kind : MapKind), kind ≠ .structOps →
        match m.map? name with
        | some spec =>
          if spec.kind = kind ∧ spec.layout.keySize = Word.width κ ∧ spec.layout.valueSize = Word.width ν then
            ∃ id store, e.findMap (k.afterAll later) κ ν name kind = .ok ⟨id, name, kind, store⟩
          else
            ∃ expected actual, e.findMap (k.afterAll later) κ ν name kind =
              .error (.typeMismatch name expected actual)
        | none => e.findMap (k.afterAll later) κ ν name kind = .error (.notFound .map name)) ∧
      (∀ name, match m.map? name with
        | some spec =>
          if spec.kind = .structOps then ∃ id, e.findStructOps (k.afterAll later) name = .ok ⟨id, name⟩
          else
            ∃ expected actual, e.findStructOps (k.afterAll later) name =
              .error (.typeMismatch name expected actual)
        | none => e.findStructOps (k.afterAll later) name = .error (.notFound .structOps name)) ∧
      ∃ object, e.object = some object ∧ k.afterAll later = (Kernel.new cpus features).afterAll
        (before ++ .openObject (.bytes image.bytes) :: .loadObject object :: later)) ∧
    ∀ calls, (((Kernel.new cpus features).givenAll calls).map (·.2)).Nodup ∧
      ((Kernel.new cpus features).afterAll calls).numbers ⊆ (Kernel.new cpus features).givenAll calls ∧
      ∀ x ∈ ((Kernel.new cpus features).afterAll calls).numbers,
        ∀ y ∈ ((Kernel.new cpus features).afterAll calls).numbers, x.2 = y.2 → x = y := by
  intro start
  refine ⟨load_ok_iff fits native, fun later e k loaded kept => ?_, Kernel.numbers_are_given_once cpus features⟩
  have issued := Kernel.new_issued cpus features
  have named : (Kernel.new cpus features).Named := fun _ _ there => by cases there
  obtain ⟨id, first, rfl, offers, issued', -⟩ := load_offers (Kernel.afterAll_issued issued before)
    (Kernel.afterAll_named issued named before) fits native loaded
  have offers := Kernel.afterAll_offers issued' offers (kept id rfl)
  have once : m.NamesOnce := Image.once_of_native native
  refine ⟨findProgram_declared offers once, fun κ ν _ _ name kind => findMap_declared offers once κ ν name,
    findStructOps_declared offers once, id, rfl, ?_⟩
  obtain ⟨id', k₁, same, opened, objectLoaded⟩ := load_steps loaded
  cases same
  rw [Kernel.afterAll_append, Kernel.afterAll, Kernel.afterAll, Kernel.after, opened, Kernel.after, objectLoaded]

def probes : FileContent :=
  .bytes (Image.encode { Manifest.new "probes" with entryPoints := [⟨"probe", "kprobe/do_exit", false⟩] })

def declared : Manifest :=
  ⟨"own", "GPL", [⟨"pick", "kprobe/schedule", true⟩, ⟨"gate", "xdp", false⟩],
    [⟨"counts", .hash, ⟨4, 8, 16⟩⟩, MapSpec.structOps "ops"], Table.ofList [("policy", "own")]⟩

theorem declared_fits : declared.Fits where
  name := by decide
  license := by decide
  entryPoints := by decide
  maps := by decide
  properties := by decide
  ordered := Table.ofList_ordered _

/-- Names are found while another extension goes and comes again, and its names are not. -/
theorem names_are_found_between_others :
    let k := (Kernel.new 1 {}).afterAll [.openObject probes, .loadObject ⟨1⟩]
    let later : List Kernel.Call := [.closeObject ⟨1⟩, .openObject probes, .loadObject ⟨8⟩, .closeMap ⟨6⟩]
    ∃ image e k', Image.native declared = .ok image ∧ load k image = (.ok e, k') ∧ e.object = some ⟨3⟩ ∧
      (∃ id, e.findProgram (k'.afterAll later) "pick" = .ok ⟨id, "pick", "kprobe/schedule", .kprobe⟩) ∧
      e.findProgram (k'.afterAll later) "probe" = .error (.notFound .program "probe") ∧
      ∃ id store, e.findMap (k'.afterAll later) UInt32 UInt64 "counts" .hash = .ok ⟨id, "counts", .hash, store⟩ := by
  intro k later
  have native := Image.native_of_once (m := declared) (by decide)
  have object : (load k ⟨declared, Image.encode declared⟩).1.toOption.bind (·.object) = some ⟨3⟩ := by
    decide +kernel
  rcases loaded : load k ⟨declared, Image.encode declared⟩ with ⟨failure | e, k'⟩
  · rw [loaded] at object
    cases object
  · rw [loaded] at object
    have object : e.object = some ⟨3⟩ := object
    have kept : ∀ id, e.object = some id → .closeObject id ∉ later := fun id same => by
      cases object.symm.trans same
      simp [later]
    obtain ⟨-, found, -⟩ := names_are_found_as_declared 1 {} [.openObject probes, .loadObject ⟨1⟩]
      declared_fits native
    obtain ⟨programs, maps, -⟩ := found later e k' loaded kept
    have counts := maps UInt32 UInt64 "counts" .hash nofun
    exact ⟨_, e, k', native, loaded, object, programs "pick", programs "probe", counts⟩

end Extension

end LoadableSched
