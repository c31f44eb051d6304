import LoadableSched.Proofs.Host.Binding
import LoadableSched.Proofs.Session.Sharing
import Mathlib.Data.List.Induction

/-!
Isolation of the sessions of a host. Each keeps to what is its own, with one exception: a session that
attaches its first filter to an interface removes the discipline that is there, whoever uses it.
-/

namespace LoadableSched

namespace Host

variable {h h' : Host} {i : Nat} {s : Session}

/-- Whatever is tracked for a session is in the kernel, and runs a program of that session. -/
def Isolated (h : Host) : Prop :=
  ∀ i s, h.session? i = some s → ∀ held ∈ s.holdings.items, ∀ a, held.resource? = some a →
    ∃ v, h.kernel.occupant? a = some v ∧ s.Suits h.kernel held v

/-- An event removes what is tracked for somebody else: a session clears an interface on which another one
holds a filter, or a link goes that a session holds and that nobody asked it for. -/
def Intrudes (h : Host) : Event → Prop
  | .session i event => ∃ s ifindex, h.session? i = some s ∧ s.Sweeps h.kernel event ifindex ∧
      ∃ j other, j ≠ i ∧ h.session? j = some other ∧ Attach.holdsFilterOn other.holdings ifindex = true
  | .unbind link => (∃ k, h.kernel.destroyLink link = .ok k) ∧
      ∃ i s, h.session? i = some s ∧ s.Holds (.link link)
  | _ => False

def Event.By (i : Nat) : Event → Prop
  | .session j _ => j = i
  | .drop j => j = i
  | _ => False

/-- Every session is in step with its part of the kernel, and no part belongs to two. -/
structure Separate (h : Host) : Prop where
  orderly : h.kernel.Orderly
  stands : ∀ i s, h.session? i = some s → s.Stands h.kernel
  apart : ∀ i j s other, i ≠ j → h.session? i = some s → h.session? j = some other → s.Apart other

theorem Separate.isolated (separate : h.Separate) : h.Isolated := fun i s here held member a is =>
  (separate.stands i s here).placed.there held member a is

theorem session?_setSession (here : h.session? i = some s) (now : Option Session) (j : Nat) :
    (h.setSession i now).session? j = if j = i then now else h.session? j := by
  have bound : i < h.sessions.length := by
    refine Nat.lt_of_not_le fun beyond => ?_
    simp [session?, List.getElem?_eq_none beyond] at here
  by_cases same : j = i
  · subst same
    simp [session?, setSession, bound]
  · simp [session?, setSession, List.getElem?_set_ne (Ne.symm same), same]

theorem session?_openSession (h : Host) (id : String) (t : Tunables) (j : Nat) :
    (h.openSession id t).2.session? j =
      if j = h.sessions.length then some (h.newSession id t) else h.session? j := by
  simp only [session?, openSession]
  split
  · rename_i last
    simp [last]
  · rename_i other
    rcases Nat.lt_or_gt_of_ne other with inside | beyond
    · rw [List.getElem?_append_left inside]
    · rw [List.getElem?_eq_none (by simp; omega), List.getElem?_eq_none (by omega)]

theorem session?_load (h : Host) (image : Image) (j : Nat) : (h.load image).2.session? j = h.session? j := by
  unfold load
  rcases Extension.load h.kernel image with ⟨_ | _, _⟩ <;> rfl

/-! The session that an event is done to. -/

section

variable (here : h.session? i = some s)

include here

theorem after_session (event : Session.Event) : h.after (.session i event) =
    { h with kernel := (s.after h.kernel event).2 }.setSession i (s.after h.kernel event).1 := by
  simp [Host.after, here]

theorem kernel_after_session (event : Session.Event) :
    (h.after (.session i event)).kernel = (s.after h.kernel event).2 := by
  rw [after_session here]
  rfl

theorem session?_after_session (event : Session.Event) (j : Nat) :
    (h.after (.session i event)).session? j =
      if j = i then some (s.after h.kernel event).1 else h.session? j := by
  rw [after_session here]
  exact session?_setSession (h := { h with kernel := (s.after h.kernel event).2 }) here _ j

theorem session?_after_drop (j : Nat) :
    (h.after (.drop i)).session? j = if j = i then none else h.session? j := by
  simp only [Host.after, dropSession, here]
  exact session?_setSession (h := { h with kernel := (s.close h.kernel).2.2 }) here none j

end

theorem after_session_absent (absent : h.session? i = none) (event : Session.Event) :
    h.after (.session i event) = h := by
  simp [Host.after, absent]

theorem after_drop_absent (absent : h.session? i = none) : h.after (.drop i) = h := by
  simp [Host.after, dropSession, absent]

structure Harmless (h : Host) (event : Event) : Prop where
  separate : (h.after event).Separate
  others : ∀ j other, ¬ event.By j → h.session? j = some other →
    (h.after event).session? j = some other ∧ other.Unhurt h.kernel (h.after event).kernel

variable {event : Event}

theorem Separate.keep (separate : h.Separate) (sessions : ∀ j, (h.after event).session? j = h.session? j)
    (unhurt : ∀ j other, h.session? j = some other → other.Unhurt h.kernel (h.after event).kernel) :
    h.Harmless event where
  separate := by
    refine ⟨after_orderly separate.orderly event, fun j other there => ?_, ?_⟩
    · rw [sessions] at there
      exact (separate.stands j other there).unhurt (unhurt j other there)
    · intro j j' other other' different there there'
      rw [sessions] at there there'
      exact separate.apart j j' other other' different there there'
  others j other _ there := ⟨(sessions j).trans there, unhurt j other there⟩

theorem Separate.update {s' : Session} (separate : h.Separate) (may : IfIndex → Prop)
    (apart : ∀ j other, j ≠ i → h.session? j = some other → s.Apart other)
    (stands : s'.Stands (h.after event).kernel)
    (respects : s.Respects may h.kernel s' (h.after event).kernel)
    (unswept : ∀ j other, j ≠ i → h.session? j = some other → ∀ a, other.Holds a → ¬ Session.Swept may a)
    (sessions : ∀ j, j ≠ i → (h.after event).session? j = h.session? j)
    (mine : ∀ now, (h.after event).session? i = some now → now = s')
    (others : ∀ j other, h.session? j = some other → ¬ event.By j → j ≠ i) : h.Harmless event := by
  have unhurt : ∀ j other, j ≠ i → h.session? j = some other →
      other.Unhurt h.kernel (h.after event).kernel := fun j other different there =>
    respects.unhurt (apart j other different there) (unswept j other different there)
  have apart : ∀ j other, j ≠ i → h.session? j = some other → s'.Apart other :=
    fun j other different there => respects.keeps_apart (apart j other different there)
      (unswept j other different there) (separate.stands j other there)
  refine ⟨⟨after_orderly separate.orderly event, fun j other there => ?_, ?_⟩, ?_⟩
  · by_cases same : j = i
    · subst same
      exact mine other there ▸ stands
    · rw [sessions j same] at there
      exact (separate.stands j other there).unhurt (unhurt j other same there)
  · intro j j' other other' different there there'
    by_cases same : j = i <;> by_cases same' : j' = i
    · exact absurd (same.trans same'.symm) different
    · subst same
      rw [sessions j' same'] at there'
      exact mine other there ▸ apart j' other' same' there'
    · subst same'
      rw [sessions j same] at there
      exact (mine other' there' ▸ apart j other same there).symm
    · rw [sessions j same] at there
      rw [sessions j' same'] at there'
      exact separate.apart j j' other other' different there there'
  · intro j other different there
    have different := others j other there different
    exact ⟨(sessions j different).trans there, unhurt j other different there⟩

theorem unswept_of_peaceful {event : Session.Event} (here : h.session? i = some s)
    (peaceful : ¬ h.Intrudes (.session i event)) {j : Nat} {other : Session} (different : j ≠ i)
    (there : h.session? j = some other) (a : Resource) (held : other.Holds a) :
    ¬ Session.Swept (s.Sweeps h.kernel event) a := by
  rintro ⟨side, rfl, sweeps⟩
  obtain ⟨holding, member, is⟩ := held
  exact peaceful ⟨s, side.ifindex, here, sweeps, j, other, different, there,
    Attach.holdsFilterOn_iff.mpr ⟨holding, member, side, is, rfl⟩⟩

theorem Separate.after_openSession (separate : h.Separate) (id : String) (t : Tunables) :
    h.Harmless (.openSession id t) := by
  have sessions := session?_openSession h id t
  refine separate.update (i := h.sessions.length) (s := h.newSession id t) (fun _ => False)
    (fun _ _ _ _ => .of_bare rfl rfl) (.of_bare rfl rfl) (.refl _ _) ?_
    (fun j different => (sessions j).trans (if_neg different))
    (fun now there => (Option.some.inj (((sessions _).trans (if_pos rfl)).symm.trans there)).symm) ?_
  · rintro j other _ _ a _ ⟨_, _, swept⟩
    exact swept
  · rintro j other there _ rfl
    simp [session?] at there

theorem Separate.after_session (separate : h.Separate) {event : Session.Event}
    (peaceful : ¬ h.Intrudes (.session i event)) : h.Harmless (.session i event) := by
  cases here : h.session? i with
  | none =>
    have same := after_session_absent here event
    exact separate.keep (fun _ => by rw [same]) fun _ other _ => by
      rw [same]
      exact .refl other h.kernel
  | some s =>
    obtain ⟨stands, respects⟩ := Session.after_stands separate.orderly (separate.stands i s here) event
    have sessions := session?_after_session here event
    rw [← kernel_after_session here event] at stands respects
    exact separate.update _ (fun j other different => separate.apart i j s other different.symm here)
      stands respects (fun j other => unswept_of_peaceful here peaceful)
      (fun j different => (sessions j).trans (if_neg different))
      (fun now there => (Option.some.inj (((sessions i).trans (if_pos rfl)).symm.trans there)).symm)
      fun j _ _ different same => different same.symm

theorem Separate.after_drop (separate : h.Separate) (i : Nat) : h.Harmless (.drop i) := by
  cases here : h.session? i with
  | none =>
    have same := after_drop_absent here
    exact separate.keep (fun _ => by rw [same]) fun _ other _ => by
      rw [same]
      exact .refl other h.kernel
  | some s =>
    have closing := Session.close_moves (fun _ => False) s h.kernel
    obtain ⟨stands, respects⟩ := closing.stands separate.orderly (separate.stands i s here)
    have kernel : (h.after (.drop i)).kernel = (s.close h.kernel).2.2 := by
      simp only [Host.after, dropSession_kernel, here]
    have sessions := session?_after_drop here
    rw [← kernel] at stands respects
    refine separate.update _ (fun j other different => separate.apart i j s other different.symm here)
      stands respects ?_ (fun j different => (sessions j).trans (if_neg different)) ?_
      fun j _ _ different same => different same.symm
    · rintro j other _ _ a _ ⟨_, _, swept⟩
      exact swept
    · intro now there
      cases ((sessions i).trans (if_pos rfl)).symm.trans there

/-- Without an intrusion the sessions stay apart, and nobody is hurt but by what is done to itself. -/
theorem Separate.after (separate : h.Separate) (peaceful : ¬ h.Intrudes event) : h.Harmless event := by
  cases event with
  | openSession id t => exact separate.after_openSession id t
  | session i event => exact separate.after_session peaceful
  | drop i => exact separate.after_drop i
  | load image =>
    refine separate.keep (session?_load h image) fun j other _ => ?_
    simp only [Host.after, load_kernel]
    exact ⟨fun a v _ present => ((Extension.load_adds _ image).occupant a).trans present,
      fun id o _ present => Session.load_keeps separate.orderly image present⟩
  | bind map policy =>
    refine separate.keep (fun _ => rfl) fun j other _ => ?_
    simp only [Host.after]
    rcases outcome : h.kernel.attachStructOps map policy with ⟨result, k⟩
    have objects := (Kernel.attachStructOps_sustains outcome).objects
    refine ⟨fun a v _ present => ?_, fun id o _ present => objects ▸ present⟩
    cases result with
    | error e => exact (Kernel.attachStructOps_occupant outcome a).trans present
    | ok link => exact (Kernel.attachStructOps_gains separate.orderly.numbered outcome).1.kept present
  | unbind link =>
    refine separate.keep (fun _ => rfl) fun j other there => ?_
    cases made : h.kernel.destroyLink link with
    | error e =>
      simp only [Host.after, made]
      exact .refl other h.kernel
    | ok k =>
      have released : (Holding.link link "").releaseIn h.kernel = .ok k := made
      simp only [Host.after, made, Except.toOption, Option.getD_some]
      refine ⟨fun a v held present => ?_, fun id o _ present => ?_⟩
      · rw [(Holding.releaseIn_clears released).occupant, if_neg ?_]
        · exact present
        · rintro ⟨⟩
          exact peaceful ⟨⟨k, made⟩, j, other, there, held⟩
      · exact (Holding.releaseIn_rest released).1 ▸ present
  | schedule op =>
    exact separate.keep (fun _ => rfl) fun j other _ =>
      ⟨fun a v _ present => by cases a <;> exact present, fun _ _ _ present => present⟩

theorem Separate.intruded (separate : h.Separate) (intrudes : h.Intrudes event) :
    ¬ (h.after event).Isolated := by
  intro isolated
  cases event with
  | openSession | drop | load | bind | schedule => exact intrudes
  | unbind link =>
    obtain ⟨⟨k, made⟩, j, other, there, held, member, is⟩ := intrudes
    obtain ⟨v, present, _⟩ := isolated j other there held member _ is
    have released : (Holding.link link "").releaseIn h.kernel = .ok k := made
    simp only [Host.after, made, Except.toOption, Option.getD_some] at present
    simp [(Holding.releaseIn_clears released).occupant, Holding.resource?] at present
  | session i event =>
    obtain ⟨s, ifindex, here, sweeps, j, other, different, there, holds⟩ := intrudes
    obtain ⟨_, member, side, is, rfl⟩ := Attach.holdsFilterOn_iff.mp holds
    obtain ⟨program, priority, rfl⟩ := Holding.eq_filter is
    -- The filter ran a program of its own session, and nothing but one of the intruder's is left there.
    obtain ⟨v, before, suits⟩ := separate.isolated j other there _ member _ rfl
    obtain ⟨rfl, e', loaded', id', o', object', has', owned'⟩ := suits.filter
    obtain ⟨p, ⟨e, loaded, id, o, object, has, owned⟩, alone⟩ :=
      sweeps.leaves_own (separate.orderly.disciplined side _ before)
    have stays : (h.after (.session i event)).session? j = some other := by
      rw [session?_after_session here, if_neg different]
      exact there
    obtain ⟨w, after, suits⟩ := isolated j other stays _ member _ rfl
    obtain ⟨rfl, _⟩ := suits.filter
    rw [kernel_after_session here] at after
    cases alone side _ rfl after
    -- One program in the objects of two sessions would make them one.
    cases separate.orderly.apart id o id' o' program has has' owned owned'
    exact (separate.apart i j s other different.symm here there).objects _ ⟨e, loaded, object⟩
      ⟨e', loaded', object'⟩

def Peaceful (h : Host) (events : List Event) : Prop :=
  ∀ early event, early ++ [event] <+: events → ¬ (h.afterAll early).Intrudes event

theorem Peaceful.early {early events : List Event} (peaceful : h.Peaceful events)
    (before : early <+: events) : h.Peaceful early := fun sooner event earlier =>
  peaceful sooner event (earlier.trans before)

theorem peaceful_concat {events : List Event} (before : h.Peaceful events)
    (last : ¬ (h.afterAll events).Intrudes event) : h.Peaceful (events ++ [event]) := by
  intro sooner now earlier
  rcases List.prefix_concat_iff.mp earlier with same | within
  · obtain ⟨rfl, rfl⟩ := List.append_inj' same rfl |>.imp_right List.singleton_inj.mp
    exact last
  · exact before sooner now within

theorem afterAll_concat (h : Host) (events : List Event) (event : Event) :
    h.afterAll (events ++ [event]) = (h.afterAll events).after event := by
  rw [afterAll_append]
  rfl

theorem Separate.afterAll (separate : h.Separate) {events : List Event} (peaceful : h.Peaceful events) :
    (h.afterAll events).Separate := by
  induction events using List.reverseRecOn with
  | nil => exact separate
  | append_singleton events event ih =>
    rw [afterAll_concat]
    have before := ih (peaceful.early (List.prefix_append _ _))
    exact (before.after (peaceful events event (List.prefix_refl _))).separate

theorem new_separate (cpus : Nat) (features : Features) (interfaces : List IfIndex) (files : FileTree)
    (settings : HostSettings) : (new cpus features interfaces files settings).Separate where
  orderly := new_orderly ..
  stands i s there := by
    have none : (new cpus features interfaces files settings).session? i = none := rfl
    cases none.symm.trans there
  apart i j s other _ there := by
    have none : (new cpus features interfaces files settings).session? i = none := rfl
    cases none.symm.trans there

theorem Separate.peaceful (separate : h.Separate) {events : List Event}
    (isolated : ∀ early, early <+: events → (h.afterAll early).Isolated) : h.Peaceful events := by
  induction events using List.reverseRecOn with
  | nil =>
    intro sooner event earlier
    simp at earlier
  | append_singleton events event ih =>
    have before := ih fun early within => isolated early (within.trans (List.prefix_append _ _))
    refine peaceful_concat before fun intrudes => ?_
    have after := isolated _ (List.prefix_refl _)
    rw [afterAll_concat] at after
    exact (separate.afterAll before).intruded intrudes after

/-- In every run of a host, whatever is tracked for a session is in the kernel all along and runs a program
of that session, if and only if no event of the run intrudes. As long as none does, an event leaves the
sessions that it is not done to as they are, and what the kernel has for them. -/
theorem isolated_iff_peaceful (cpus : Nat) (features : Features) (interfaces : List IfIndex)
    (files : FileTree) (settings : HostSettings) (events : List Event) :
    let h := new cpus features interfaces files settings
    ((∀ early, early <+: events → (h.afterAll early).Isolated) ↔ h.Peaceful events) ∧
    ∀ event, h.Peaceful (events ++ [event]) →
      let before := h.afterAll events
      let after := before.after event
      ∀ i s, ¬ event.By i → before.session? i = some s → after.session? i = some s ∧
        ∀ a, s.Holds a → after.kernel.occupant? a = before.kernel.occupant? a := by
  intro h
  have start : h.Separate := new_separate ..
  refine ⟨⟨start.peaceful, fun peaceful early within => ?_⟩, fun event peaceful => ?_⟩
  · exact (start.afterAll (peaceful.early within)).isolated
  · intro before after i s other there
    have separate : before.Separate := start.afterAll (peaceful.early (List.prefix_append _ _))
    obtain ⟨stays, unhurt⟩ := (separate.after (peaceful events event (List.prefix_refl _))).others i s
      other there
    refine ⟨stays, fun a held => ?_⟩
    obtain ⟨holding, member, is⟩ := held
    obtain ⟨v, present, _⟩ := separate.isolated i s there holding member a is
    exact (unhurt.occupant a v ⟨holding, member, is⟩ present).trans present.symm

def classifierImage : Image :=
  let manifest := { Manifest.new "net" with entryPoints := [⟨"classify", "tc", false⟩] }
  ⟨manifest, Image.encode manifest⟩

/-- A second session that attaches to the other side of an interface takes away the filter of the first,
which is tracked all the same. -/
theorem second_session_removes_filter :
    let h := (new 4 {} [2] .standard .default).afterAll
      [.openSession "first" .default, .session 0 (.load classifierImage),
        .session 0 (.attachFilter "classify" ⟨2, .ingress⟩), .openSession "second" .default,
        .session 1 (.load classifierImage)]
    let now := h.after (.session 1 (.attachFilter "classify" ⟨2, .egress⟩))
    (h.session? 0).map (·.holdings.items) = some [.filter ⟨2⟩ ⟨2, .ingress⟩ 1] ∧
      h.kernel.occupant? (.filter ⟨2, .ingress⟩) = some (.program ⟨2⟩) ∧ h.kernel.faults = {} ∧
      (now.session? 0).map (·.holdings.items) = some [.filter ⟨2⟩ ⟨2, .ingress⟩ 1] ∧
      now.kernel.occupant? (.filter ⟨2, .ingress⟩) = none := by
  decide +kernel

end Host

end LoadableSched
