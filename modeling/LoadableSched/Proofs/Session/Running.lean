import LoadableSched.Host
import LoadableSched.Proofs.Session.Closing
import LoadableSched.Proofs.Session.Moving

/-!
Runs of a session: whatever is called and whatever fails, the holdings and the kernel stay in step until
the session is closed, and then only what the kernel refused to give up is left.
-/

namespace LoadableSched

namespace Session

variable {may : IfIndex → Prop} {s s' : Session} {k k' : Kernel}

theorem UnderWay.work (way : s.UnderWay k) (tracks : s'.holdings.Tracks k')
    (objects : ∀ id, k'.objects.contains id = k.objects.contains id)
    (extension : s'.extension = s.extension) (state : s'.state = s.state) : s'.UnderWay k' where
  state := state ▸ way.state
  tracks := tracks
  owned id present := extension ▸ way.owned id ((objects id).symm.trans present)
  unloaded is := extension.trans (way.unloaded (state.symm.trans is))

theorem UnderWay.alike (way : s.UnderWay k) (alike : k.Alike k')
    (objects : ∀ id, k'.objects.contains id = k.objects.contains id) : s.UnderWay k' :=
  way.work (way.tracks.alike alike) objects rfl rfl

theorem Over.alike (ended : s.Over k) (alike : k.Alike k')
    (objects : ∀ id, k'.objects.contains id = k.objects.contains id) : s.Over k' where
  state := ended.state
  holdings := ended.holdings
  extension := ended.extension
  owned id present := ended.owned id ((objects id).symm.trans present)
  bound := alike.bound ended.bound

/-! Moves. -/

theorem Move.goesOn {x y : Session × Kernel} (move : Move may x y) (way : x.1.UnderWay x.2) :
    y.1.UnderWay y.2 ∧ y.2.refuses = x.2.refuses ∨ Ends x.2 y.1 y.2 := by
  cases move with
  | act loaded act =>
    obtain ⟨tracks, spares⟩ := way.tracks.act act
    exact .inl ⟨way.work tracks spares.objects rfl rfl, spares.refuses⟩
  | note loaded there new =>
    exact .inl ⟨way.work (way.tracks.note new) (fun _ => rfl) rfl rfl, rfl⟩
  | memory memory =>
    exact .inl ⟨way.alike (Kernel.setMemory_alike _ memory) fun _ => rfl, rfl⟩
  | refuseBinding conforms refused =>
    have rests := Kernel.attachStructOps_rests way.tracks.steady conforms refused
    exact .inl ⟨way.alike rests.toAlike rests.objects, rests.refuses⟩
  | release member made =>
    obtain ⟨tracks, spares⟩ := way.tracks.release member made
    exact .inl ⟨way.work tracks spares.objects rfl rfl, spares.refuses⟩
  | enter state scheduler unclosed stays unloaded =>
    exact .inl ⟨⟨stays, way.tracks, way.owned, fun is => way.unloaded (unloaded is)⟩, rfl⟩
  | load unloaded made =>
    rename_i image e
    have none := way.unloaded unloaded
    have owned := Extension.load_owned (none ▸ way.owned) image
    rw [made] at owned
    have adds := (Extension.load_made made).1
    exact .inl ⟨⟨by simp, way.tracks.alike adds.toAlike, owned, by simp⟩, adds.refuses⟩
  | refuseLoad unloaded refused =>
    rename_i image failure
    have none := way.unloaded unloaded
    have owned := Extension.load_owned (none ▸ way.owned) image
    rw [refused] at owned
    have adds := (Extension.load_refused refused).1
    exact .inl ⟨⟨way.state, way.tracks.alike adds.toAlike, none ▸ owned, way.unloaded⟩, adds.refuses⟩
  | close unclosed =>
    have ends := close_ends way
    rw [close_eq way.state] at ends
    exact .inr ends

theorem Move.over {x y : Session × Kernel} (move : Move may x y) (ended : x.1.Over x.2) :
    y.1 = x.1 ∧ x.2.Alike y.2 ∧ ∀ id, y.2.objects.contains id = x.2.objects.contains id := by
  cases move with
  | memory memory => exact ⟨rfl, Kernel.setMemory_alike _ memory, fun _ => rfl⟩
  | refuseBinding conforms refused =>
    have rests := Kernel.attachStructOps_rests ended.bound.steady conforms refused
    exact ⟨rfl, rests.toAlike, rests.objects⟩
  | act loaded | note loaded => cases ended.extension.symm.trans loaded
  | release member =>
    have none := ended.holdings
    dsimp only at none
    rw [none] at member
    cases member
  | enter _ _ unclosed => exact absurd ended.state unclosed
  | load unloaded | refuseLoad unloaded => cases ended.state.symm.trans unloaded
  | close unclosed => exact absurd ended.state unclosed

theorem Moves.over {x y : Session × Kernel} (moves : Moves may x y) (ended : x.1.Over x.2) :
    y.1 = x.1 ∧ x.2.Alike y.2 ∧ ∀ id, y.2.objects.contains id = x.2.objects.contains id := by
  induction moves with
  | refl => exact ⟨rfl, .refl _, fun _ => rfl⟩
  | tail _ move ih =>
    obtain ⟨same, alike, objects⟩ := ih
    obtain ⟨same', alike', objects'⟩ := move.over (same ▸ ended.alike alike objects)
    exact ⟨same'.trans same, alike.trans alike', fun id => (objects' id).trans (objects id)⟩

theorem Moves.goesOn {x y : Session × Kernel} (moves : Moves may x y) (way : x.1.UnderWay x.2) :
    y.1.UnderWay y.2 ∧ y.2.refuses = x.2.refuses ∨ Ends x.2 y.1 y.2 := by
  induction moves with
  | refl => exact .inl ⟨way, rfl⟩
  | tail _ move ih =>
    rcases ih with ⟨still, refuses⟩ | ends
    · rcases move.goesOn still with ⟨later, refuses'⟩ | ends
      · exact .inl ⟨later, refuses'.trans refuses⟩
      · exact .inr ⟨ends.toOver, fun a v present => refuses ▸ ends.refused a v present⟩
    · obtain ⟨same, alike, objects⟩ := move.over ends.toOver
      refine .inr ⟨same ▸ ends.toOver.alike alike objects, fun a v present => ?_⟩
      exact ends.refused a v ((alike.occupant a).symm.trans present)

/-! Runs. -/

theorem after_goesOn (way : s.UnderWay k) (event : Event) :
    (s.after k event).1.UnderWay (s.after k event).2 ∨ Ends k (s.after k event).1 (s.after k event).2 := by
  have course := s.after_course k event
  generalize s.after k event = after at course
  cases course with
  | moves moves => exact (Moves.goesOn moves way).imp_left (·.1)
  | binds moves loaded conforms made =>
    rename_i s₁ k' memory e map policy link name scheduler
    rcases Moves.goesOn moves way with ⟨still, _⟩ | ends
    · obtain ⟨gains, spares, steady, vacant, active⟩ :=
        Kernel.attachStructOps_takes still.tracks conforms made
      have tracks := still.tracks.hold (h := .structOps link name) gains (fun _ => trivial) (by rintro ⟨⟩)
        (iff_of_true active (.inr rfl)) (fun _ => vacant) steady
      exact .inl ⟨by simp, tracks, fun id present => still.owned id ((spares.objects id).symm.trans present),
        by simp⟩
    · cases ends.extension.symm.trans loaded
  | around around alike calm =>
    exact .inl (way.alike (alike way.tracks.steady) fun id => by rw [around.objects])

theorem after_over (ended : s.Over k) (event : Event) :
    (s.after k event).1.Over (s.after k event).2 ∧ k.Alike (s.after k event).2 := by
  have course := s.after_course k event
  generalize s.after k event = after at course
  cases course with
  | moves moves =>
    obtain ⟨same, alike, objects⟩ := Moves.over moves ended
    exact ⟨same ▸ ended.alike alike objects, alike⟩
  | binds moves loaded conforms made =>
    obtain ⟨same, _⟩ := Moves.over moves ended
    cases ended.extension.symm.trans ((congrArg Session.extension same).symm.trans loaded)
  | around around alike calm =>
    have alike := alike ended.bound.steady
    exact ⟨ended.alike alike fun id => by rw [around.objects], alike⟩

theorem afterAll_over (ended : s.Over k) (events : List Event) :
    (s.afterAll k events).1.Over (s.afterAll k events).2 ∧ k.Alike (s.afterAll k events).2 := by
  induction events generalizing s k with
  | nil => exact ⟨ended, .refl k⟩
  | cons event rest ih =>
    obtain ⟨ended, alike⟩ := after_over ended event
    obtain ⟨end', alike'⟩ := ih ended
    exact ⟨end', alike.trans alike'⟩

/-- Over a run the session stays under way until one event closes it; what the kernel refused to give up
then is all that is ever left. -/
theorem afterAll_cases (way : s.UnderWay k) (events : List Event) :
    (s.afterAll k events).1.UnderWay (s.afterAll k events).2 ∨
      (s.afterAll k events).1.Over (s.afterAll k events).2 ∧
      ∀ a v, (s.afterAll k events).2.occupant? a = some v →
        ∃ early event late, events = early ++ event :: late ∧
          (s.afterAll k early).1.state ≠ .closed ∧
          (s.afterAll k (early ++ [event])).1.state = .closed ∧
          (s.afterAll k early).2.refuses a = true := by
  -- From the front: the event that ends the session is the one to name, and later ones change no place.
  induction events generalizing s k with
  | nil => exact .inl way
  | cons event rest ih =>
    rcases after_goesOn way event with goes | ends
    · rcases ih goes with still | ⟨ended, left⟩
      · exact .inl still
      · refine .inr ⟨ended, fun a v present => ?_⟩
        obtain ⟨early, last, late, rfl, before, closed, refused⟩ := left a v present
        exact ⟨event :: early, last, late, rfl, before, closed, refused⟩
    · obtain ⟨ended, alike⟩ := afterAll_over ends.toOver rest
      refine .inr ⟨ended, fun a v present => ?_⟩
      exact ⟨[], event, rest, rfl, way.state, ends.state,
        ends.refused a v ((alike.occupant a).symm.trans present)⟩

theorem new_underWay (cpus : Nat) (features : Features) (interfaces : List IfIndex) (files : FileTree)
    (settings : HostSettings) (id : String) (t : Tunables) :
    let h := Host.new cpus features interfaces files settings
    (h.newSession id t).UnderWay h.kernel where
  state := by simp [Host.newSession, new]
  tracks :=
    { nodup := List.Pairwise.nil
      unique := fun h member => absurd member List.not_mem_nil
      held := fun a v present => by cases a <;> cases present
      there := fun h member => absurd member List.not_mem_nil
      bound := by
        constructor
        · intro active
          cases active
        · rintro ⟨h, member, _⟩
          exact absurd member List.not_mem_nil
      numbered := fun id v present => by cases present
      single := fun h member => absurd member List.not_mem_nil
      steady := (SchedClass.Steady.new cpus Memory.empty).setMemory _ }
  owned id present := by cases present
  unloaded _ := rfl

/-- While a session is not closed, what it holds and what is in the kernel are the same, one to one, and a
policy is installed exactly when the binding of a scheduler is held. Once it is closed there is no object,
and what is left in the kernel had its release refused for a fault that was injected before. -/
theorem held_exactly_live (cpus : Nat) (features : Features) (interfaces : List IfIndex)
    (files : FileTree) (settings : HostSettings) (id : String) (t : Tunables) (events : List Event) :
    let h := Host.new cpus features interfaces files settings
    let after := (h.newSession id t).afterAll h.kernel
    ((after events).1.state ≠ .closed → (after events).1.holdings.InStep (after events).2) ∧
    ((after events).1.state = .closed →
      (∀ object, (after events).2.objects.contains object = false) ∧
      ((after events).2.sched.policy.isSome →
        ∃ link map, (after events).2.occupant? (.link link) = some (.link (.structOps map))) ∧
      ∀ a v, (after events).2.occupant? a = some v →
        ∃ early event late, events = early ++ event :: late ∧ (after early).1.state ≠ .closed ∧
          (after (early ++ [event])).1.state = .closed ∧ (after early).2.refuses a = true) := by
  intro h after
  rcases afterAll_cases (new_underWay cpus features interfaces files settings id t) events with
    way | ⟨ended, left⟩
  · exact ⟨fun _ => way.tracks.toInStep, fun closed => absurd closed way.state⟩
  · refine ⟨fun unclosed => absurd ended.state unclosed, fun _ => ?_⟩
    exact ⟨Kernel.owned_none_iff.mp ended.owned, ended.bound.link, left⟩

end Session

end LoadableSched
