import LoadableSched.Proofs.Session.Ordering

/-!
Sessions that share a kernel. What a session holds is there and runs its programs, and whatever it does, it
takes no more than what was free, and leaves alone what it does not hold; but the discipline that it removes
from an interface takes the filters of all along.
-/

namespace LoadableSched

variable {may : IfIndex → Prop} {own : ProgramId → Prop} {k k' k'' : Kernel}

namespace Session

variable {s s' s'' : Session}

def Holds (s : Session) (a : Resource) : Prop := ∃ h ∈ s.holdings.items, h.resource? = some a

def Has (s : Session) (id : ObjectId) : Prop := ∃ e, s.extension = some e ∧ e.object = some id

def Owns (s : Session) (k : Kernel) (p : ProgramId) : Prop := ∃ e, s.extension = some e ∧ e.OwnsProgram k p

def Suits (s : Session) (k : Kernel) (h : Holding) (v : Occupant) : Prop := h.Fits v ∧ v.Runs (s.Owns k)

/-- A session is in step with its own part of a kernel, whoever else uses it. -/
structure Stands (s : Session) (k : Kernel) : Prop where
  fresh : s.state = .unloaded → s.extension = none ∧ s.holdings = .empty
  placed : s.holdings.Placed (s.Suits k) k
  present : ∀ id, s.Has id → ∃ o, k.objects.get? id = some o

def Swept (may : IfIndex → Prop) (a : Resource) : Prop := ∃ side, a = .filter side ∧ may side.ifindex

/-- From one state to another a session takes up only what was free and leaves alone what it does not hold,
but for the filters on interfaces that it may clear. -/
structure Respects (may : IfIndex → Prop) (s : Session) (k : Kernel) (s' : Session) (k' : Kernel) :
    Prop where
  places : ∀ a, s'.Holds a → s.Holds a ∨ k.occupant? a = none ∨ Swept may a
  object : ∀ id, s'.Has id → s.Has id ∨ k.objects.get? id = none
  occupant : ∀ a v, k.occupant? a = some v → ¬ s.Holds a → ¬ Swept may a → k'.occupant? a = some v
  objects : ∀ id o, k.objects.get? id = some o → ¬ s.Has id → k'.objects.get? id = some o

theorem Respects.refl (s : Session) (k : Kernel) : Respects may s k s k :=
  ⟨fun _ => .inl, fun _ => .inl, fun _ _ there _ _ => there, fun _ _ there _ => there⟩

theorem Respects.trans (first : Respects may s k s' k') (later : Respects may s' k' s'' k'') :
    Respects may s k s'' k'' where
  places a held := by
    rcases later.places a held with before | empty | swept
    · exact first.places a before
    · -- What was there and is not any more was the session's own, or it was swept away.
      by_cases own : s.Holds a
      · exact .inl own
      · by_cases swept : Swept may a
        · exact .inr (.inr swept)
        · refine .inr (.inl (Option.eq_none_iff_forall_ne_some.mpr fun v present => ?_))
          cases empty.symm.trans (first.occupant a v present own swept)
    · exact .inr (.inr swept)
  object id has := by
    rcases later.object id has with before | absent
    · exact first.object id before
    · by_cases own : s.Has id
      · exact .inl own
      · refine .inr (Option.eq_none_iff_forall_ne_some.mpr fun o present => ?_)
        cases absent.symm.trans (first.objects id o present own)
  occupant a v present other unswept := by
    refine later.occupant a v (first.occupant a v present other unswept) (fun held => ?_) unswept
    rcases first.places a held with before | empty | swept
    · exact other before
    · cases present.symm.trans empty
    · exact unswept swept
  objects id o present other := by
    refine later.objects id o (first.objects id o present other) fun has => ?_
    rcases first.object id has with before | absent
    · exact other before
    · cases present.symm.trans absent

theorem Stands.of_bare (unloaded : s.extension = none) (empty : s.holdings = .empty) : s.Stands k where
  fresh _ := ⟨unloaded, empty⟩
  placed := by
    rw [empty]
    exact .empty
  present := by
    rintro id ⟨e, loaded, _⟩
    cases unloaded.symm.trans loaded

/-! Moves. -/

theorem Suits.congr (objects : k'.objects = k.objects) : s.Suits k' = s.Suits k := by
  have owns : s.Owns k' = s.Owns k := by
    funext p
    simp only [Owns, Extension.OwnsProgram.congr objects]
  unfold Suits
  rw [owns]

theorem Suits.of_runs {e : Extension} {h : Holding} {v : Occupant} (loaded : s.extension = some e)
    (fits : h.Fits v) (runs : v.Runs (e.OwnsProgram k)) : s.Suits k h v :=
  ⟨fits, runs.mono fun _ owned => ⟨e, loaded, owned⟩⟩

theorem Suits.filter {program : ProgramId} {side : Side} {priority : UInt32} {v : Occupant}
    (suits : s.Suits k (.filter program side priority) v) : v = .program program ∧ s.Owns k program := by
  obtain ⟨fits, runs⟩ := suits
  cases v with
  | program p =>
    cases fits
    exact ⟨rfl, runs⟩
  | link | descriptor => exact fits.elim

theorem Stands.change {holdings : Holdings} (stands : s.Stands k) (objects : k'.objects = k.objects)
    (fresh : s.state = .unloaded → holdings = .empty) (placed : holdings.Placed (s.Suits k) k') :
    ({ s with holdings } : Session).Stands k' where
  fresh unloaded := ⟨(stands.fresh unloaded).1, fresh unloaded⟩
  placed := by
    have same : s.Suits k' = s.Suits k := Suits.congr objects
    exact same ▸ placed
  present id has := objects ▸ stands.present id has

theorem Stands.loaded {e : Extension} (stands : s.Stands k) (loaded : s.extension = some e)
    {holdings : Holdings} (unloaded : s.state = .unloaded) : holdings = .empty := by
  cases loaded.symm.trans (stands.fresh unloaded).1

theorem Stands.alike (stands : s.Stands k) (occupant : ∀ a, k'.occupant? a = k.occupant? a)
    (objects : k'.objects = k.objects) : s.Stands k' :=
  stands.change objects (fun unloaded => (stands.fresh unloaded).2) (stands.placed.alike occupant)

theorem Respects.alike (occupant : ∀ a, k'.occupant? a = k.occupant? a)
    (objects : k'.objects = k.objects) : Respects may s k s k' where
  places _ held := .inl held
  object _ has := .inl has
  occupant a _ present _ _ := (occupant a).trans present
  objects _ _ present _ := objects ▸ present

theorem Respects.change {holdings : Holdings} (objects : k'.objects = k.objects)
    (places : ∀ h ∈ holdings.items, ∀ a, h.resource? = some a → s.Holds a ∨ k.occupant? a = none)
    (occupant : ∀ a v, k.occupant? a = some v → ¬ s.Holds a → ¬ Swept may a →
      k'.occupant? a = some v) :
    Respects may s k { s with holdings } k' where
  places := by
    rintro a ⟨h, member, is⟩
    exact (places h member a is).imp_right .inl
  object _ has := .inl has
  occupant := occupant
  objects _ _ present _ := objects ▸ present

theorem release_stands {h : Holding} (stands : s.Stands k) (member : h ∈ s.holdings.items)
    (made : h.releaseIn k = .ok k') :
    ({ s with holdings := s.holdings.eraseLast h } : Session).Stands k' ∧
      Respects may s k { s with holdings := s.holdings.eraseLast h } k' := by
  have clears := Holding.releaseIn_clears made
  have objects := (Holding.releaseIn_rest made).1
  constructor
  · refine stands.change objects (fun unloaded => ?_) (stands.placed.drop member clears.toLoses)
    rw [(stands.fresh unloaded).2] at member
    cases member
  · refine .change objects (fun old still a is => .inl ⟨old, Holdings.mem_of_mem_eraseLast still, is⟩) ?_
    intro a v present other _
    have different : h.resource? ≠ some a := fun is => other ⟨h, member, is⟩
    rw [clears.occupant, if_neg different]
    exact present

theorem act_stands {e : Extension} {holdings : Holdings} (stands : s.Stands k) (numbered : k.Numbered)
    (loaded : s.extension = some e) (act : Act (e.OwnsProgram k) may (s.holdings, k) (holdings, k')) :
    ({ s with holdings } : Session).Stands k' ∧ Respects may s k { s with holdings } k' := by
  have objects : k'.objects = k.objects := act.sustains.1.objects
  cases act.effect numbered with
  | takes takes is fits runs other =>
    rename_i h a v
    have gains : k.Gains k' h.resource? v := is ▸ takes.toGains
    have placed := stands.placed.hold gains (fun _ => Suits.of_runs loaded fits runs)
      fun none => by cases none.symm.trans is
    refine ⟨stands.change objects (stands.loaded loaded) placed, .change objects ?_ ?_⟩
    · intro old member b there
      rcases Holdings.mem_register.mp member with before | rfl
      · exact .inl ⟨old, before, there⟩
      · exact .inr (gains.free b there)
    · exact fun b w present _ _ => gains.kept present
  | rests rests => exact ⟨stands.alike rests.occupant objects, .alike rests.occupant objects⟩
  | gives member made other => exact release_stands stands member made
  | clears unheld allowed made =>
    rename_i ifindex
    -- Of the filters that go none is the session's own.
    have spared : ∀ a, s.Holds a → k'.occupant? a = k.occupant? a := by
      rintro a ⟨h, member, is⟩
      exact Kernel.destroyQdisc_occupant made fun side same here =>
        absurd here (Attach.elsewhere unheld member (same ▸ is))
    have placed : s.holdings.Placed (s.Suits k) k' := by
      refine ⟨stands.placed.nodup, stands.placed.unique, fun h member a is => ?_⟩
      rw [spared a ⟨h, member, is⟩]
      exact stands.placed.there h member a is
    refine ⟨stands.change objects (stands.loaded loaded) placed, .change objects ?_ ?_⟩
    · exact fun h member a is => .inl ⟨h, member, is⟩
    · intro a v present _ unswept
      rw [Kernel.destroyQdisc_occupant made fun side same here => ?_]
      · exact present
      · exact absurd ⟨side, same, here ▸ allowed⟩ unswept

theorem close_respects (s : Session) (k : Kernel) :
    Respects may s k s.emptied (Belonging.attempts k s.due).2 where
  places := by rintro a ⟨h, ⟨⟩, _⟩
  object := by rintro id ⟨e, ⟨⟩, _⟩
  occupant a v present other _ := by
    refine Belonging.attempts_keep (P := fun k => k.occupant? a = some v)
      (fun b member k k' made present => ?_) present
    cases b with
    | holding h =>
      have different : h.resource? ≠ some a := fun is => other ⟨h, holding_mem_due.mp member, is⟩
      rw [(Holding.releaseIn_clears (Belonging.holding_release made)).occupant, if_neg different]
      exact present
    | extension e =>
      obtain ⟨_, rfl⟩ | ⟨object, _, closed⟩ := Belonging.extension_release made
      · exact present
      · exact ((Kernel.closeObject_made closed).1.occupant a).trans present
  objects id o present other := by
    refine Belonging.attempts_keep (P := fun k => k.objects.get? id = some o)
      (fun b member k k' made present => ?_) present
    cases b with
    | holding h =>
      exact (Holding.releaseIn_rest (Belonging.holding_release made)).1 ▸ present
    | extension e =>
      obtain ⟨_, rfl⟩ | ⟨object, same, closed⟩ := Belonging.extension_release made
      · exact present
      · rw [(Kernel.closeObject_made closed).2.2, if_neg ?_]
        · exact present
        · rintro rfl
          exact other ⟨e, extension_mem_due.mp member, same⟩

theorem load_keeps (orderly : k.Orderly) (image : Image) {id : ObjectId} {o : KernelObject}
    (there : k.objects.get? id = some o) : (Extension.load k image).2.objects.get? id = some o := by
  have number := (orderly.registered id o there).1
  rcases outcome : Extension.load k image with ⟨failure | e, k'⟩
  · rcases (Extension.load_refused outcome).2 id with same | ⟨above, _⟩
    · exact same.trans there
    · omega
  · obtain ⟨_, new, _, _, above, _, _, objects⟩ := Extension.load_made outcome
    rw [objects, if_neg ?_]
    · exact there
    · rintro rfl
      omega

theorem load_stands {image : Image} {e : Extension} (orderly : k.Orderly) (stands : s.Stands k)
    (unloaded : s.state = .unloaded) (made : Extension.load k image = (.ok e, k')) :
    ({ s with extension := some e, state := .loaded } : Session).Stands k' ∧
      Respects may s k { s with extension := some e, state := .loaded } k' := by
  obtain ⟨adds, id, o, object, above, _, _, objects⟩ := Extension.load_made made
  have kept : ∀ other old, k.objects.get? other = some old → k'.objects.get? other = some old := by
    intro other old there
    simpa only [made] using load_keeps orderly image there
  constructor
  · refine ⟨by rintro ⟨⟩, ?_, ?_⟩
    · rw [(stands.fresh unloaded).2]
      exact .empty
    · rintro other ⟨_, ⟨⟩, same⟩
      cases Option.some.inj (same.symm.trans object)
      exact ⟨o, (objects id).trans (if_pos rfl)⟩
  · refine ⟨fun _ => .inl, ?_, fun a v present _ _ => (adds.occupant a).trans present,
      fun other old present _ => kept other old present⟩
    rintro other ⟨_, ⟨⟩, same⟩
    cases Option.some.inj (same.symm.trans object)
    refine .inr (Option.eq_none_iff_forall_ne_some.mpr fun old present => ?_)
    have := (orderly.registered id old present).1
    omega

theorem refuseLoad_stands {image : Image} {failure : Failure} (orderly : k.Orderly)
    (stands : s.Stands k) (unloaded : s.state = .unloaded)
    (refused : Extension.load k image = (.error failure, k')) :
    s.Stands k' ∧ Respects may s k s k' := by
  have kept : ∀ id o, k.objects.get? id = some o → k'.objects.get? id = some o := by
    intro id o there
    simpa only [refused] using load_keeps orderly image there
  obtain ⟨none, empty⟩ := stands.fresh unloaded
  exact ⟨.of_bare none empty, fun _ => .inl, fun _ => .inl,
    fun a v present _ _ => ((Extension.load_refused refused).1.occupant a).trans present,
    fun id o present _ => kept id o present⟩

theorem Move.stands {x y : Session × Kernel} (move : Move may x y) (orderly : x.2.Orderly)
    (stands : x.1.Stands x.2) : y.1.Stands y.2 ∧ Respects may x.1 x.2 y.1 y.2 := by
  cases move with
  | act loaded act => exact act_stands stands orderly.numbered loaded act
  | note loaded there new =>
    rename_i s k e id m
    have placed := stands.placed.note new
    refine ⟨stands.change rfl (stands.loaded loaded) placed, .change rfl ?_ fun _ _ present _ _ => present⟩
    intro old member a is
    rcases Holdings.mem_register.mp member with before | rfl
    · exact .inl ⟨old, before, is⟩
    · cases is
  | memory memory =>
    rename_i s k
    have occupant := (k.setMemory_alike memory).occupant
    exact ⟨stands.alike occupant rfl, .alike occupant rfl⟩
  | refuseBinding conforms refused =>
    have objects := (Kernel.attachStructOps_sustains refused).objects
    have occupant := Kernel.attachStructOps_occupant refused
    exact ⟨stands.alike occupant objects, .alike occupant objects⟩
  | release member made => exact release_stands stands member made
  | enter state scheduler unclosed stays unloaded =>
    exact ⟨⟨fun new => stands.fresh (unloaded new), stands.placed, stands.present⟩,
      fun _ => .inl, fun _ => .inl, fun _ _ present _ _ => present, fun _ _ present _ => present⟩
  | load unloaded made => exact load_stands orderly stands unloaded made
  | refuseLoad unloaded refused => exact refuseLoad_stands orderly stands unloaded refused
  | close unclosed => exact ⟨.of_bare rfl rfl, close_respects _ _⟩

theorem Moves.stands {x y : Session × Kernel} (moves : Moves may x y) (orderly : x.2.Orderly)
    (stands : x.1.Stands x.2) : y.1.Stands y.2 ∧ Respects may x.1 x.2 y.1 y.2 := by
  induction moves with
  | refl => exact ⟨stands, .refl _ _⟩
  | tail before move ih =>
    obtain ⟨between, respects⟩ := ih
    obtain ⟨after, later⟩ := move.stands (Moves.orderly before orderly) between
    exact ⟨after, respects.trans later⟩

/-- Whatever is done to a session, it stays in step, and it respects the others but for the filters on the
interface that it clears. -/
theorem after_stands (orderly : k.Orderly) (stands : s.Stands k) (event : Event) :
    (s.after k event).1.Stands (s.after k event).2 ∧
      Respects (s.Sweeps k event) s k (s.after k event).1 (s.after k event).2 := by
  have course := s.after_course k event
  generalize s.after k event = after at course
  cases course with
  | moves moves => exact moves.stands orderly stands
  | binds moves loaded conforms made =>
    rename_i s₁ k' memory e map policy link name scheduler
    obtain ⟨between, respects⟩ := Moves.stands moves orderly stands
    have numbered := (Moves.orderly moves orderly).numbered
    obtain ⟨gains, _⟩ := Kernel.attachStructOps_gains numbered made
    have objects := (Kernel.attachStructOps_sustains made).objects
    have placed := between.placed.hold (h := .structOps link name) gains
      (fun _ => ⟨trivial, trivial⟩) (by rintro ⟨⟩)
    have after := between.change objects (between.loaded loaded) placed
    refine ⟨⟨by rintro ⟨⟩, after.placed, after.present⟩, respects.trans ?_⟩
    refine ⟨?_, fun _ => .inl, fun _ _ present _ _ => gains.kept present,
      fun _ _ present _ => objects ▸ present⟩
    rintro a ⟨h, member, is⟩
    rcases Holdings.mem_register.mp member with before | rfl
    · exact .inl ⟨h, before, is⟩
    · exact .inr (.inl (gains.free a is))
  | around around alike calm =>
    exact ⟨stands.alike around.occupant around.objects, .alike around.occupant around.objects⟩

/-! The others. -/

structure Apart (s other : Session) : Prop where
  places : ∀ a, s.Holds a → ¬ other.Holds a
  objects : ∀ id, s.Has id → ¬ other.Has id

theorem Apart.symm {other : Session} (apart : s.Apart other) : other.Apart s :=
  ⟨fun a held here => apart.places a here held, fun id has here => apart.objects id here has⟩

theorem Apart.of_bare {other : Session} (unloaded : s.extension = none) (empty : s.holdings = .empty) :
    s.Apart other where
  places := by
    rintro a ⟨h, member, _⟩
    rw [empty] at member
    cases member
  objects := by
    rintro id ⟨e, loaded, _⟩
    cases unloaded.symm.trans loaded

structure Unhurt (s : Session) (k k' : Kernel) : Prop where
  occupant : ∀ a v, s.Holds a → k.occupant? a = some v → k'.occupant? a = some v
  objects : ∀ id o, s.Has id → k.objects.get? id = some o → k'.objects.get? id = some o

theorem Unhurt.refl (s : Session) (k : Kernel) : s.Unhurt k k :=
  ⟨fun _ _ _ present => present, fun _ _ _ present => present⟩

theorem Stands.unhurt (stands : s.Stands k) (unhurt : s.Unhurt k k') : s.Stands k' where
  fresh := stands.fresh
  placed := by
    refine ⟨stands.placed.nodup, stands.placed.unique, fun h member a is => ?_⟩
    obtain ⟨v, present, fits, runs⟩ := stands.placed.there h member a is
    have owns : ∀ p, s.Owns k p → s.Owns k' p := by
      rintro p ⟨e, loaded, id, o, object, there, programs⟩
      exact ⟨e, loaded, id, o, object, unhurt.objects id o ⟨e, loaded, object⟩ there, programs⟩
    exact ⟨v, unhurt.occupant a v ⟨h, member, is⟩ present, fits, runs.mono owns⟩
  present id has := by
    obtain ⟨o, there⟩ := stands.present id has
    exact ⟨o, unhurt.objects id o has there⟩

section

variable {other : Session} (respects : Respects may s k s' k') (apart : s.Apart other)
  (unswept : ∀ a, other.Holds a → ¬ Swept may a)

include respects apart unswept

theorem Respects.unhurt : other.Unhurt k k' where
  occupant a v held present :=
    respects.occupant a v present (fun own => apart.places a own held) (unswept a held)
  objects id o has present := respects.objects id o present fun own => apart.objects id own has

theorem Respects.keeps_apart (stands : other.Stands k) : s'.Apart other where
  places a held others := by
    rcases respects.places a held with before | empty | swept
    · exact apart.places a before others
    · obtain ⟨h, member, is⟩ := others
      exact stands.placed.occupied member is empty
    · exact unswept a others swept
  objects id has others := by
    rcases respects.object id has with before | absent
    · exact apart.objects id before others
    · obtain ⟨o, present⟩ := stands.present id others
      cases absent.symm.trans present

end

/-! Filters that are swept away. -/

theorem close_fades (s : Session) (k : Kernel) : k.Fades (s.close k).2.2 := by
  by_cases closed : s.state = .closed
  · rw [close_closed closed]
    exact .refl k
  · rw [close_eq closed]
    exact Belonging.attempts_fades k s.due

theorem attached_fades {α : Type} (s : Session) (result : Attached α) :
    result.2.2.Fades (s.attached result).2.2 := by
  obtain ⟨failure | value, holdings, k⟩ := result
  · rw [attached, closeAfter_eq]
    exact close_fades _ k
  · exact .refl k

theorem filter_sweeps {holdings : Holdings} {p : ProgramHandle} {side : Side}
    (unheld : Attach.holdsFilterOn holdings side.ifindex = false) {k₁ : Kernel}
    (cleared : k.destroyQdisc side.ifindex = .ok k₁) {other : Side} (on : other.ifindex = side.ifindex)
    {v : Occupant} (present : (Attach.filter holdings k p side).2.2.occupant? (.filter other) = some v) :
    v = .program p.id := by
  have empty : k₁.occupant? (.filter other) = none := by
    obtain ⟨_, rfl⟩ := Kernel.destroyQdisc_made cleared
    simp only [Kernel.occupant?, Table.get?_filter_key, on]
    simp
  have alone : ∀ k₂ target, (∀ a, k₂.occupant? a = k₁.occupant? a) →
      (Attach.filterOn holdings k₂ p side target).2.2.occupant? (.filter other) = some v →
      v = .program p.id := by
    intro k₂ target same present
    unfold Attach.filterOn at present
    split at present
    · cases empty.symm.trans ((same _).symm.trans present)
    · rename_i made
      simp only [Attach.hold, (Kernel.attachFilter_takes made).occupant] at present
      split at present
      · exact (Option.some.inj present).symm
      · cases empty.symm.trans ((same _).symm.trans present)
  unfold Attach.filter at present
  simp only [unheld, Bool.false_eq_true, if_false, cleared, Except.toOption, Option.getD_some] at present
  split at present
  · rename_i k₂ made
    exact alone k₂ _ (Kernel.createQdisc_rests made).occupant present
  · split at present
    · exact alone k₁ _ (fun _ => rfl) present
    · cases empty.symm.trans present

theorem Sweeps.leaves_own {event : Event} {ifindex : IfIndex} (sweeps : s.Sweeps k event ifindex)
    (there : ifindex ∈ k.qdiscs) :
    ∃ p, s.Owns k p ∧ ∀ side v, side.ifindex = ifindex →
      (s.after k event).2.occupant? (.filter side) = some v → v = .program p := by
  obtain ⟨name, side, e, p, rfl, rfl, able, loaded, found, unheld, unhindered⟩ := sweeps
  have same : s.after k (.attachFilter name side) = (s.attached (Attach.filter s.holdings k p side)).2 := by
    simp [after, attachFilter, attachProgramWith, attachWith, able, liveExtension, loaded, found]
  obtain ⟨k₁, cleared⟩ : ∃ k₁, k.destroyQdisc side.ifindex = .ok k₁ := by
    simp [Kernel.destroyQdisc, unhindered, there]
  refine ⟨p.id, ⟨e, loaded, Extension.findProgram_owns found⟩, fun other v on present => ?_⟩
  rw [same] at present
  exact filter_sweeps unheld cleared on ((s.attached_fades _).occupant _ v present)

end Session

end LoadableSched
