import LoadableSched.Kernel.Run
import LoadableSched.Proofs.Session.Loading

/-!
What one call can make of objects, programs, maps and links, and of the numbers they have. All calls but
three that concern objects and those that make a link leave these alone, up to links that go and the outside
handles of maps.
-/

namespace LoadableSched

variable {α : Type} {k k' k'' : Kernel}

def Id.tagged {kind : IdKind} (id : Id kind) : IdKind × Nat := (kind, id.number)

namespace Kernel

def linkOf? (k : Kernel) : Call → Option LinkId
  | .attachProgram program => (k.attachProgram program).toOption.map (·.1)
  | .attachCgroup program fd => (k.attachCgroup program fd).1.toOption
  | .attachStructOps map policy => (k.attachStructOps map policy).1.toOption
  | _ => none

/-- The numbers that a call gives out: that of an object or a link it tells, and those of the programs and
maps that come about by it. -/
def given (k : Kernel) : Call → List (IdKind × Nat)
  | .openObject content => (k.openObject content).1.toOption.toList.map Id.tagged
  | .loadObject object =>
    let k' := (k.loadObject object).2
    (k'.programs.keys.filter (· ∉ k.programs.keys)).map Id.tagged ++
      (k'.maps.keys.filter (· ∉ k.maps.keys)).map Id.tagged
  | call => (k.linkOf? call).toList.map Id.tagged

structure Idles (k k' : Kernel) : Prop where
  objects : k'.objects = k.objects
  programs : k'.programs = k.programs
  mapKeys : k'.maps.keys = k.maps.keys
  maps : ∀ id, (k'.maps.get? id).map (fun m => (m.spec, m.store)) =
    (k.maps.get? id).map fun m => (m.spec, m.store)
  links : k'.links.keys ⊆ k.links.keys
  lastId : k'.lastId = k.lastId
  features : k'.features = k.features

theorem Idles.aside (objects : k'.objects = k.objects) (programs : k'.programs = k.programs)
    (maps : k'.maps = k.maps) (links : k'.links = k.links) (lastId : k'.lastId = k.lastId)
    (features : k'.features = k.features) : k.Idles k' :=
  ⟨objects, programs, by rw [maps], fun _ => by rw [maps], by rw [links]; exact fun _ => id, lastId, features⟩

theorem Idles.refl (k : Kernel) : k.Idles k := .aside rfl rfl rfl rfl rfl rfl

structure Joins (k k' : Kernel) (link : LinkId) : Prop where
  number : link = ⟨k.lastId + 1⟩
  links : ∃ target, k'.links = k.links.insert link target
  objects : k'.objects = k.objects
  programs : k'.programs = k.programs
  maps : k'.maps = k.maps
  lastId : k'.lastId = k.lastId + 1
  features : k'.features = k.features

/-- What a call does: nothing that matters here, or one of four things. -/
inductive Step (k : Kernel) (call : Call) (k' : Kernel) : Prop where
  | idles (none : k.given call = []) (same : k.Idles k')
  | opens (content : FileContent) (object : ObjectId) (is : call = .openObject content)
      (made : k.openObject content = (.ok object, k'))
  | loads (object : ObjectId) (is : call = .loadObject object) (made : k.loadObject object = (.ok (), k'))
  | closes (object : ObjectId) (is : call = .closeObject object) (made : k.closeObject object = .ok k')
  | joins (link : LinkId) (one : k.given call = [link.tagged]) (joins : k.Joins k' link)

theorem attachXdp_inserts {ifindex : IfIndex} {program : ProgramId} {flags : UInt32}
    (made : k.attachXdp ifindex program flags = .ok k') :
    k' = { k with xdp := k.xdp.insert ifindex program } := by
  unfold attachXdp at made
  split at made
  · cases made
  · split at made
    · cases made
    · split at made
      · cases made
      · split at made
        · cases made
        · exact (Except.ok.inj made).symm

theorem openPath_made {path : Path} {fd : Descriptor} (made : k.openPath path = .ok (fd, k')) :
    ∃ place, (fd, k') = k.openPlace place := by
  unfold openPath at made
  split at made
  · cases made
  · exact ⟨_, (Except.ok.inj made).symm⟩

theorem dropDescriptor_made {fd : Descriptor} (made : k.dropDescriptor fd = .ok k') :
    k' = { k with descriptors := k.descriptors.erase fd } := by
  unfold dropDescriptor at made
  split at made
  · exact (Except.ok.inj made).symm
  · cases made

theorem destroyLink_idles {link : LinkId} (made : k.destroyLink link = .ok k') : k.Idles k' := by
  have fewer : (k.links.erase link).keys ⊆ k.links.keys := Table.keys_foldl_erase [link] _
  obtain ⟨_, _, ⟨_, rfl⟩ | ⟨_, rfl⟩⟩ := destroyLink_made made <;>
    exact ⟨rfl, rfl, rfl, fun _ => rfl, fewer, rfl, rfl⟩

theorem closeMap_idles {map : MapId} (made : k.closeMap map = .ok k') : k.Idles k' := by
  cases closeMap_made made
  refine ⟨rfl, rfl, Table.keys_modify .., fun id => ?_, fun _ => id, rfl, rfl⟩
  dsimp only [log]
  rw [Table.get?_modify]
  split
  · rw [Option.map_map]
    rfl
  · rfl

theorem Idles.outcome {result : Except Errno Kernel} (made : ∀ k', result = .ok k' → k.Idles k') :
    k.Idles (result.toOption.getD k) := by
  cases result with
  | error e => exact .refl k
  | ok k' => exact made k' rfl

theorem Idles.yield {result : Except Errno (α × Kernel)} (made : ∀ x k', result = .ok (x, k') → k.Idles k') :
    k.Idles ((result.toOption.map (·.2)).getD k) := by
  cases result with
  | error e => exact .refl k
  | ok yielded => exact made yielded.1 yielded.2 rfl

theorem addLink_joins (k : Kernel) (target : Link) : k.Joins (k.addLink target).2 (k.addLink target).1 :=
  ⟨rfl, ⟨target, rfl⟩, rfl, rfl, rfl, rfl, rfl⟩

theorem after_step (k : Kernel) (call : Call) : k.Step call (k.after call) := by
  cases call with
  | openObject content =>
    simp only [after]
    rcases opened : k.openObject content with ⟨e | object, k'⟩
    · refine .idles (by simp [given, opened, Except.toOption]) ?_
      exact openObject_refused opened ▸ .aside rfl rfl rfl rfl rfl rfl
    · exact .opens content object rfl opened
  | loadObject object =>
    simp only [after]
    rcases loaded : k.loadObject object with ⟨e | _, k'⟩
    · obtain ⟨_, rfl⟩ := loadObject_faults loaded
      exact .idles (by simp [given, loaded]) (.aside rfl rfl rfl rfl rfl rfl)
    · exact .loads object rfl loaded
  | closeObject object =>
    simp only [after]
    cases closed : k.closeObject object with
    | error e => exact .idles rfl (.refl k)
    | ok k' => exact .closes object rfl closed
  | closeMap map => exact .idles rfl (.outcome fun _ => closeMap_idles)
  | attachProgram program =>
    simp only [after]
    cases attached : k.attachProgram program with
    | error e => exact .idles (by simp [given, linkOf?, attached, Except.toOption]) (.refl k)
    | ok made =>
      obtain ⟨link, k'⟩ := made
      refine .joins link (by simp [given, linkOf?, attached, Except.toOption]) ?_
      cases attachProgram_made attached
      exact addLink_joins k _
  | attachCgroup program fd =>
    simp only [after]
    rcases attached : k.attachCgroup program fd with ⟨e | link, k'⟩
    · obtain ⟨_, rfl⟩ := attachCgroup_counted attached
      exact .idles (by simp [given, linkOf?, attached, Except.toOption]) (.aside rfl rfl rfl rfl rfl rfl)
    · refine .joins link (by simp [given, linkOf?, attached, Except.toOption]) ?_
      cases attachCgroup_made attached
      exact ⟨rfl, ⟨_, rfl⟩, rfl, rfl, rfl, rfl, rfl⟩
  | attachStructOps map policy =>
    simp only [after]
    rcases attached : k.attachStructOps map policy with ⟨e | link, k'⟩
    · refine .idles (by simp [given, linkOf?, attached, Except.toOption]) ?_
      rcases attachStructOps_refused attached with rfl | ⟨_, _, rfl⟩
      · exact .refl k'
      · exact .aside rfl rfl rfl rfl rfl rfl
    · refine .joins link (by simp [given, linkOf?, attached, Except.toOption]) ?_
      cases (attachStructOps_made attached).2
      exact ⟨rfl, ⟨_, rfl⟩, rfl, rfl, rfl, rfl, rfl⟩
  | destroyLink link => exact .idles rfl (.outcome fun _ => destroyLink_idles)
  | attachXdp ifindex program flags =>
    exact .idles rfl (.outcome fun _ made => attachXdp_inserts made ▸ .aside rfl rfl rfl rfl rfl rfl)
  | detachXdp ifindex =>
    exact .idles rfl (.outcome fun _ made => detachXdp_made made ▸ .aside rfl rfl rfl rfl rfl rfl)
  | createQdisc ifindex =>
    exact .idles rfl (.outcome fun _ made => createQdisc_made made ▸ .aside rfl rfl rfl rfl rfl rfl)
  | destroyQdisc ifindex =>
    exact .idles rfl (.outcome fun _ made => (destroyQdisc_made made).2 ▸ .aside rfl rfl rfl rfl rfl rfl)
  | attachFilter side program =>
    exact .idles rfl (.outcome fun _ made => (attachFilter_made made).2.2 ▸ .aside rfl rfl rfl rfl rfl rfl)
  | detachFilter side =>
    exact .idles rfl (.outcome fun _ made => detachFilter_made made ▸ .aside rfl rfl rfl rfl rfl rfl)
  | openPath path =>
    refine .idles rfl (.yield fun fd k' made => ?_)
    obtain ⟨_, opened⟩ := openPath_made made
    cases opened
    exact .aside rfl rfl rfl rfl rfl rfl
  | openDirectory place =>
    refine .idles rfl (.yield fun fd k' made => ?_)
    cases openDirectory_made made
    exact .aside rfl rfl rfl rfl rfl rfl
  | closeDescriptor fd =>
    exact .idles rfl (.outcome fun _ made => closeDescriptor_made made ▸ .aside rfl rfl rfl rfl rfl rfl)
  | dropDescriptor fd =>
    exact .idles rfl (.outcome fun _ made => dropDescriptor_made made ▸ .aside rfl rfl rfl rfl rfl rfl)
  | inject injection =>
    refine .idles rfl ?_
    cases injection with
    | staleQdisc ifindex =>
      simp only [after, inject]
      split
      · exact .refl k
      · exact .aside rfl rfl rfl rfl rfl rfl
    | _ => exact .aside rfl rfl rfl rfl rfl rfl
  | setMemory | schedule | files | addInterfaces | takeReleases =>
    exact .idles rfl (.aside rfl rfl rfl rfl rfl rfl)

/-! What loading and closing leave alone. -/

theorem addPrograms_aside (k : Kernel) (names : Table String ProgramId) (entries : List EntryPoint) :
    (k.addPrograms names entries).2.links = k.links ∧ (k.addPrograms names entries).2.features = k.features := by
  induction entries generalizing k names with
  | nil => exact ⟨rfl, rfl⟩
  | cons e rest ih => exact ih _ _

theorem addMaps_aside (k : Kernel) (names : Table String MapId) (specs : List MapSpec) :
    (k.addMaps names specs).2.links = k.links ∧ (k.addMaps names specs).2.features = k.features := by
  induction specs generalizing k names with
  | nil => exact ⟨rfl, rfl⟩
  | cons spec rest ih => exact ih _ _

theorem loadObject_aside {id : ObjectId} (made : k.loadObject id = (.ok (), k')) :
    (k'.links = k.links ∧ k'.features = k.features) ∧
      ∃ o, k.objects.get? id = some o ∧ o.loaded = false ∧ k.supports o.manifest = true := by
  unfold loadObject at made
  split at made
  · cases made
  · split at made
    · cases made
    · rename_i o found
      split at made
      · cases made
      · rename_i fresh
        split at made
        · cases made
        · rename_i supported
          cases made
          obtain ⟨links, features⟩ := addPrograms_aside k ∅ o.manifest.entryPoints
          obtain ⟨links', features'⟩ := addMaps_aside (k.addPrograms ∅ o.manifest.entryPoints).2 ∅ o.manifest.maps
          exact ⟨⟨links'.trans links, features'.trans features⟩, o, found, by simpa using fresh,
            by simpa using supported⟩

theorem closeObject_aside {id : ObjectId} (made : k.closeObject id = .ok k') :
    k'.links = k.links ∧ k'.features = k.features ∧ k'.lastId = k.lastId := by
  unfold closeObject at made
  split at made
  · cases made
  · cases Except.ok.inj made
    exact ⟨rfl, rfl, rfl⟩

theorem after_features (k : Kernel) (call : Call) : (k.after call).features = k.features := by
  cases after_step k call with
  | idles none same => exact same.features
  | opens content object is made =>
    obtain ⟨_, _, _, _, _, same⟩ := openObject_made made
    rw [same]
  | loads object is made => exact (loadObject_aside made).1.2
  | closes object is made => exact (closeObject_aside made).2.1
  | joins link one joins => exact joins.features

theorem afterAll_append (k : Kernel) (early late : List Call) :
    k.afterAll (early ++ late) = (k.afterAll early).afterAll late := by
  induction early generalizing k with
  | nil => rfl
  | cons call rest ih => exact ih (k.after call)

theorem afterAll_features (k : Kernel) (calls : List Call) : (k.afterAll calls).features = k.features := by
  induction calls generalizing k with
  | nil => rfl
  | cons call rest ih => exact (ih _).trans (after_features k call)

end Kernel

end LoadableSched
