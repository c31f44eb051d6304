import LoadableSched.Host
import LoadableSched.Proofs.Session.Moving

/-!
What a session knows of its object and its maps: they are in the kernel, and the kernel's log tells which
of the maps were closed.
-/

namespace LoadableSched

variable {k k' : Kernel}

namespace Kernel

def Logged (k : Kernel) : Prop :=
  ∀ id m, k.maps.get? id = some m → (m.isOpen = true ↔ .map id ∉ k.releases)

theorem Logged.sustain (logged : k.Logged) (sustains : k.Sustains k') : k'.Logged := by
  intro id m present
  rw [sustains.maps] at present
  rw [sustains.closed]
  exact logged id m present

theorem Logged.release {b : Belonging} (logged : k.Logged) (made : b.release k = .ok k') : k'.Logged := by
  cases b with
  | holding h =>
    obtain ⟨id, name, _, rfl⟩ | ⟨_, sustains⟩ := Holding.releaseIn_maps (Belonging.holding_release made)
    · intro other m present
      simp only [log, Table.get?_modify] at present
      split at present
      · rename_i same
        obtain ⟨m', _, rfl⟩ := Option.map_eq_some_iff.mp present
        simp [log, same]
      · rename_i different
        simp [log, logged other m present, different]
    · exact logged.sustain sustains
  | extension e =>
    obtain ⟨_, rfl⟩ | ⟨object, _, closed⟩ := Belonging.extension_release made
    · exact logged
    · obtain ⟨adds, fewer, _⟩ := closeObject_made closed
      intro id m present
      rw [adds.closed]
      exact logged id m (fewer id m present)

theorem Logged.add (logged : k.Logged) (adds : k.Adds k') (blank : ∀ id, .map id ∉ k.releases) :
    k'.Logged := by
  intro id m present
  rw [adds.closed]
  rcases adds.maps id m present with before | opened
  · exact logged id m before
  · exact iff_of_true opened (blank id)

end Kernel

namespace Session

variable {may : IfIndex → Prop} {s s' : Session}

/-- A session's maps are in the kernel, the log tells which of them were closed, and its object is there. -/
structure Charted (s : Session) (k : Kernel) : Prop where
  fresh : s.state = .unloaded → s.extension = none ∧ s.holdings.items = [] ∧ ∀ id, .map id ∉ k.releases
  known : ∀ id name, .map id name ∈ s.holdings.items → ∃ m, k.maps.get? id = some m ∧ m.spec.name = name
  logged : k.Logged
  present : ∀ e id, s.extension = some e → e.object = some id → k.objects.contains id = true

theorem Charted.name_unique (charted : s.Charted k) {id : MapId} {name name' : String}
    (held : .map id name ∈ s.holdings.items) (held' : .map id name' ∈ s.holdings.items) :
    name = name' := by
  obtain ⟨m, there, rfl⟩ := charted.known id name held
  obtain ⟨m', there', rfl⟩ := charted.known id name' held'
  cases Option.some.inj (there.symm.trans there')
  rfl

theorem Charted.sustain (charted : s.Charted k) (sustains : k.Sustains k')
    (extension : s'.extension = s.extension)
    (held : ∀ id name, .map id name ∈ s'.holdings.items → .map id name ∈ s.holdings.items)
    (fresh : s'.state = .unloaded → s.state = .unloaded ∧ s'.holdings.items = []) : s'.Charted k' where
  fresh unloaded := by
    obtain ⟨before, empty⟩ := fresh unloaded
    obtain ⟨none, _, blank⟩ := charted.fresh before
    exact ⟨extension.trans none, empty, fun id => (not_congr (sustains.closed id)).mpr (blank id)⟩
  known id name member := by
    rw [sustains.maps]
    exact charted.known id name (held id name member)
  logged := charted.logged.sustain sustains
  present e id loaded object := by
    rw [sustains.objects]
    exact charted.present e id (extension ▸ loaded) object

theorem Charted.move (charted : s.Charted k) (move : Move may (s, k) (s', k')) : s'.Charted k' := by
  -- Nothing is attached or opened without an extension.
  have unloaded : ∀ {e : Extension}, s.extension = some e → s.state ≠ .unloaded := by
    intro e loaded state
    cases loaded.symm.trans (charted.fresh state).1
  cases move with
  | act loaded act =>
    exact charted.sustain act.sustains.1 rfl (fun _ _ => act.held_maps)
      fun state => absurd state (unloaded loaded)
  | note loaded there new =>
    refine ⟨fun state => absurd state (unloaded loaded), fun id name member => ?_, charted.logged,
      charted.present⟩
    rcases Holdings.mem_register.mp member with before | same
    · exact charted.known id name before
    · cases same
      exact ⟨_, there, rfl⟩
  | memory memory =>
    exact charted.sustain ⟨rfl, rfl, fun _ => .rfl⟩ rfl (fun _ _ member => member)
      fun state => ⟨state, (charted.fresh state).2.1⟩
  | refuseBinding conforms refused =>
    exact charted.sustain (Kernel.attachStructOps_sustains refused) rfl (fun _ _ member => member) fun state =>
      ⟨state, (charted.fresh state).2.1⟩
  | release member made =>
    have loaded : s.state ≠ .unloaded := fun state =>
      List.ne_nil_of_mem member (charted.fresh state).2.1
    obtain ⟨id, name, rfl, rfl⟩ | ⟨_, sustains⟩ := Holding.releaseIn_maps made
    · refine ⟨fun state => absurd state loaded, fun other name' still => ?_,
        charted.logged.release (b := .holding _) (Belonging.release_of_releaseIn made), charted.present⟩
      obtain ⟨m, there, named⟩ := charted.known other name' (Holdings.mem_of_mem_eraseLast still)
      simp only [Kernel.log, Table.get?_modify]
      split
      · exact ⟨{ m with isOpen := false }, by rw [there]; rfl, named⟩
      · exact ⟨m, there, named⟩
    · exact charted.sustain sustains rfl (fun _ _ => Holdings.mem_of_mem_eraseLast)
        fun state => absurd state loaded
  | enter state scheduler unclosed stays before =>
    exact charted.sustain (.refl k) rfl (fun _ _ member => member)
      fun state => ⟨before state, (charted.fresh (before state)).2.1⟩
  | load state made =>
    obtain ⟨none, empty, blank⟩ := charted.fresh state
    obtain ⟨adds, object, o, is, _, _, _, objects⟩ := Extension.load_made made
    refine ⟨by simp, by simp [empty], charted.logged.add adds blank, fun e id loaded named => ?_⟩
    cases Option.some.inj loaded
    cases Option.some.inj (is.symm.trans named)
    rw [Table.contains_eq, objects, if_pos rfl]
    rfl
  | refuseLoad state refused =>
    obtain ⟨none, empty, blank⟩ := charted.fresh state
    obtain ⟨adds, _⟩ := Extension.load_refused refused
    refine ⟨fun _ => ⟨none, empty, fun id => (not_congr (adds.closed id)).mpr (blank id)⟩,
      by simp [empty], charted.logged.add adds blank, fun e id loaded named => ?_⟩
    cases none.symm.trans loaded
  | close unclosed =>
    have logged : (Belonging.attempts k s.due).2.Logged :=
      Belonging.attempts_keep (fun b _ k k' made logged => logged.release made) charted.logged
    exact ⟨by simp [emptied], by simp [emptied, Holdings.empty], logged, by simp [emptied]⟩

theorem Charted.moves {x y : Session × Kernel} (charted : x.1.Charted x.2) (moves : Moves may x y) :
    y.1.Charted y.2 := by
  induction moves with
  | refl => exact charted
  | tail _ move ih => exact ih.move move

theorem Charted.after (charted : s.Charted k) (event : Event) :
    (s.after k event).1.Charted (s.after k event).2 := by
  have course := s.after_course k event
  generalize s.after k event = after at course
  cases course with
  | moves moves => exact charted.moves moves
  | binds moves loaded conforms made =>
    have before := charted.moves moves
    refine before.sustain (Kernel.attachStructOps_sustains made) rfl (fun id name member => ?_) (by simp)
    simpa [Holdings.register] using member
  | around around alike calm =>
    exact charted.sustain around.sustains rfl (fun _ _ member => member)
      fun state => ⟨state, (charted.fresh state).2.1⟩

theorem Charted.afterAll (charted : s.Charted k) (events : List Event) :
    (s.afterAll k events).1.Charted (s.afterAll k events).2 := by
  induction events generalizing s k with
  | nil => exact charted
  | cons event rest ih => exact ih (charted.after event)

theorem new_charted (cpus : Nat) (features : Features) (interfaces : List IfIndex) (files : FileTree)
    (settings : HostSettings) (id : String) (t : Tunables) :
    let h := Host.new cpus features interfaces files settings
    (h.newSession id t).Charted h.kernel where
  fresh _ := ⟨rfl, rfl, fun id => List.not_mem_nil⟩
  known _ _ member := absurd member List.not_mem_nil
  logged _ _ present := by cases present
  present _ _ loaded := by cases loaded

end Session

end LoadableSched
