import LoadableSched.Proofs.Session.Aborting
import LoadableSched.Session.Lifecycle

/-!
The life of a session. Whatever happens to it and whatever the kernel answers, its state never goes back,
it has an extension exactly between loading and closing, and a call that its state is not meant for is
refused and changes nothing.
-/

namespace LoadableSched

namespace Session

variable {s s' : Session} {k : Kernel} {α : Type}

/-- A session has an extension in the states between loading and closing. -/
def Sound (s : Session) : Prop := s.extension.isSome = s.state.hasExtension

/-- What comes of a session at an event that is to lead to a state: success leads there, and a failure
leaves the state or ends the session. -/
structure Turns (s : Session) (target : SessionState) (result : Except Failure Unit) (s' : Session) :
    Prop where
  made : result = .ok () → s'.state = target
  failed : ∀ failure, result = .error failure → s'.state = s.state ∨ s'.state = .closed
  sound : s.Sound → s'.Sound

theorem Turns.of_same {target : SessionState} {failure : Failure} (state : s'.state = s.state)
    (extension : s'.extension = s.extension) : s.Turns target (.error failure) s' where
  made is := by cases is
  failed _ _ := .inl state
  sound sound := by rwa [Sound, state, extension]

theorem close_shuts (s : Session) (k : Kernel) :
    (s.close k).2.1.state = .closed ∧ (s.Sound → (s.close k).2.1.Sound) := by
  by_cases closed : s.state = .closed
  · rw [close_closed closed]
    exact ⟨closed, fun sound => sound⟩
  · rw [close_eq closed]
    exact ⟨rfl, fun _ => rfl⟩

theorem close_turns (s : Session) (k : Kernel) : s.Turns .closed (s.close k).1 (s.close k).2.1 :=
  ⟨fun _ => (s.close_shuts k).1, fun _ _ => .inr (s.close_shuts k).1, (s.close_shuts k).2⟩

theorem Turns.of_end {target : SessionState} {failure : Failure} {late : Session} (k : Kernel)
    (state : late.state = s.state) (extension : late.extension = s.extension) :
    s.Turns target (.error failure) (late.close k).2.1 where
  made is := by cases is
  failed _ _ := .inr (late.close_shuts k).1
  sound sound := (late.close_shuts k).2 (by rwa [Sound, state, extension])

theorem load_turns (s : Session) (k : Kernel) (image : Image) :
    s.Turns .loaded (s.load k image).1 (s.load k image).2.1 := by
  unfold load
  split
  · exact .of_same rfl rfl
  · split
    · exact ⟨fun _ => rfl, fun _ is => (by cases is), fun _ => rfl⟩
    · rw [closeAfter_eq]
      exact .of_end _ rfl rfl

theorem attachWith_turns (s : Session) (k : Kernel) (work : Extension → Holdings → Kernel → Attached α) :
    s.Turns .attached ((s.attachWith k work).1.map fun _ => ()) (s.attachWith k work).2.1 := by
  unfold attachWith
  split
  · exact .of_same rfl rfl
  · rename_i able
    have able : s.state.hasExtension = true := by
      cases state : s.state <;> simp [state, SessionState.canAttach, SessionState.hasExtension] at able ⊢
    split
    · rw [closeAfter_eq]
      exact .of_end _ rfl rfl
    · rename_i e _
      unfold attached
      rcases work e s.holdings k with ⟨failure | value, holdings, k'⟩
      · dsimp only
        rw [closeAfter_eq]
        exact .of_end _ rfl rfl
      · refine ⟨fun _ => rfl, fun _ is => (by cases is), fun sound => ?_⟩
        exact sound.trans able

theorem Turns.congr {late : Session} {target : SessionState} {result : Except Failure Unit}
    (turns : late.Turns target result s') (state : late.state = s.state)
    (extension : late.extension = s.extension) : s.Turns target result s' where
  made := turns.made
  failed failure is := state ▸ turns.failed failure is
  sound sound := turns.sound (by rwa [Sound, state, extension])

theorem attachScheduler_turns (s : Session) (k : Kernel) (shipped : Shipped) :
    s.Turns .attached ((s.attachScheduler k shipped).1.map fun _ => ()) (s.attachScheduler k shipped).2.1 := by
  have notes := (s.schedulerMaps_cases k).1.session
  unfold attachScheduler
  split
  · exact .of_same rfl rfl
  · split
    · exact .of_same rfl rfl
    · generalize s.schedulerMaps k = result at notes
      obtain ⟨outcome, s₁, k₁⟩ := result
      obtain ⟨maps, _, rfl⟩ := notes
      cases outcome with
      | error failure => exact .of_same rfl rfl
      | ok found =>
        dsimp only
        generalize shipped.build _ found k₁.memory = built
        obtain ⟨policy, memory⟩ := built
        dsimp only
        have turns := attachWith_turns { s with holdings := ⟨s.holdings.items ++ maps⟩ }
          (k₁.setMemory memory.newCounters.2)
          (fun e holdings k => Attach.structOps e holdings k shipped.opsMap policy)
        generalize attachWith _ _ _ = attached at turns
        obtain ⟨failure | holding, s₂, k₂⟩ := attached
        · exact turns.congr rfl rfl
        · exact ⟨fun _ => turns.made rfl, fun _ is => (by cases is), turns.sound⟩

theorem map_same (s : Session) (k : Kernel) (κ ν : Type) [Word κ] [Word ν] (name : String)
    (kind : MapKind) :
    (s.map k κ ν name kind).2.state = s.state ∧ (s.map k κ ν name kind).2.extension = s.extension := by
  obtain ⟨maps, _, same⟩ := s.map_notes k κ ν name kind
  rw [same]
  exact ⟨rfl, rfl⟩

theorem Turns.stays {result : Except Failure Unit} (state : s'.state = s.state)
    (extension : s'.extension = s.extension) : s.Turns s.state result s' where
  made _ := state
  failed _ _ := .inl state
  sound sound := by rwa [Sound, state, extension]

theorem detach_turns (s : Session) (k : Kernel) (h : Holding) :
    s.Turns s.state (s.detach k h).1 (s.detach k h).2.1 := by
  unfold detach
  split
  · exact .stays rfl rfl
  · split
    · exact .stays rfl rfl
    · exact .stays rfl rfl

theorem start_made (made : s.start = .ok s') : s'.state = .running ∧ (s.Sound → s'.Sound) := by
  unfold start at made
  split at made
  · cases made
  · rename_i ready
    cases made
    refine ⟨rfl, fun sound => ?_⟩
    rwa [Sound, Decidable.not_not.mp ready] at sound

theorem start_turns (s : Session) :
    s.Turns .running (s.start.map fun _ => ()) (s.start.toOption.getD s) := by
  cases started : s.start with
  | error failure => exact .of_same rfl rfl
  | ok s' =>
    exact ⟨fun _ => (start_made started).1, fun _ is => (by cases is), (start_made started).2⟩

theorem run_turns (s : Session) (k : Kernel) : s.Turns .closed (s.run k).1 (s.run k).2.1 := by
  unfold run
  cases started : s.start with
  | error failure => exact .of_same rfl rfl
  | ok s' =>
    obtain ⟨ended, sound⟩ := s'.close_shuts k
    exact ⟨fun _ => ended, fun _ _ => .inr ended, fun before => sound ((start_made started).2 before)⟩

theorem after_turns (s : Session) (k : Kernel) (event : Event) :
    s.Turns (event.target s.state) (s.answer k event) (s.after k event).1 := by
  cases event with
  | load image => exact s.load_turns k image
  | program name => exact .stays rfl rfl
  | map κ ν name kind => exact .stays (s.map_same k κ ν name kind).1 (s.map_same k κ ν name kind).2
  | attachScheduler shipped => exact s.attachScheduler_turns k shipped
  | attach | autoAttach | attachLsm | attachCgroup | attachXdp | attachFilter =>
    exact s.attachWith_turns k _
  | detach h => exact s.detach_turns k h
  | start => exact s.start_turns
  | run => exact s.run_turns k
  | close => exact s.close_turns k
  | report | inject | files | workload => exact .stays rfl rfl

/-! Refusals. -/

theorem able_has_extension (sound : s.Sound) (able : s.state.canAttach = true) :
    s.extension.isNone = false := by
  rw [← Option.not_isSome, sound]
  cases state : s.state <;> simp [state, SessionState.canAttach, SessionState.hasExtension] at able ⊢

theorem attachment_refused (sound : s.Sound) {event : Event} (attaches : event.attaches = true)
    (refused : s.refuses event = true) : s.state.canAttach = false := by
  rw [← Bool.not_eq_true]
  intro able
  cases event <;> simp_all [refuses, able_has_extension sound able]

theorem attachWith_refused (unable : s.state.canAttach = false)
    (work : Extension → Holdings → Kernel → Attached α) :
    s.attachWith k work = (.error (s.wrongState "attach"), s, k) := by
  rw [attachWith, unable]
  rfl

theorem refused_unchanged (sound : s.Sound) {event : Event} (refused : s.refuses event = true)
    (k : Kernel) :
    (∃ message, s.answer k event = .error (.illegalState message)) ∧ s.after k event = (s, k) := by
  have unable : event.attaches = true → s.state.canAttach = false := fun attaches =>
    attachment_refused sound attaches refused
  cases event with
  | load image =>
    have loaded : s.state ≠ .unloaded := by simpa [refuses] using refused
    simp only [answer, after, load, if_pos loaded, and_true]
    exact ⟨_, rfl⟩
  | program name =>
    have none : s.extension = none := by
      simpa [refuses] using refused
    simp only [answer, program, liveExtension, none]
    exact ⟨⟨_, rfl⟩, rfl⟩
  | map κ ν name kind =>
    have none : s.extension = none := by
      simpa [refuses] using refused
    simp only [answer, after, map, liveExtension, none]
    exact ⟨⟨_, rfl⟩, rfl⟩
  | attachScheduler shipped =>
    simp only [answer, after, attachScheduler, unable rfl]
    exact ⟨⟨_, rfl⟩, rfl⟩
  | attach | autoAttach | attachLsm | attachCgroup | attachXdp | attachFilter =>
    simp only [answer, after, attach, autoAttach, attachLsm, attachCgroup, attachXdp, attachFilter,
      attachProgramWith, attachWith_refused (unable rfl), and_true]
    exact ⟨_, rfl⟩
  | detach h =>
    have closed : s.state.isClosed = true := by
      simpa [refuses] using refused
    simp only [answer, after, detach, if_pos closed, and_true]
    exact ⟨_, rfl⟩
  | start =>
    have idle : s.state ≠ .attached := by
      simpa [refuses] using refused
    simp only [answer, after, start, if_pos idle]
    exact ⟨⟨_, rfl⟩, rfl⟩
  | run =>
    have idle : s.state ≠ .attached := by
      simpa [refuses] using refused
    simp only [answer, after, run, start, if_pos idle, and_true]
    exact ⟨_, rfl⟩
  | close | report | inject | files | workload =>
    simp [refuses] at refused

/-! Runs. -/

theorem new_sound (id : String) (host : HostSettings) (t : Tunables) : (new id host t).Sound := rfl

theorem meets_sound (sound : s.Sound) (history : List (Kernel × Event)) : (s.meets history).Sound := by
  induction history generalizing s with
  | nil => exact sound
  | cons entry rest ih => exact ih ((s.after_turns entry.1 entry.2).sound sound)

theorem suits_of_ok (sound : s.Sound) {event : Event} (answered : s.answer k event = .ok ()) :
    event.suits s.state = true := by
  rw [← Bool.not_eq_false]
  intro unsuited
  have refused : s.refuses event = true := by rw [refuses, unsuited, Bool.not_false, Bool.true_or]
  obtain ⟨⟨message, failed⟩, _⟩ := refused_unchanged sound refused k
  cases failed.symm.trans answered

theorem rank_le_target {event : Event} {state : SessionState} (suits : event.suits state = true) :
    state.rank ≤ (event.target state).rank := by
  cases event <;> cases state <;>
    simp_all [SessionState.rank, SessionState.canAttach, SessionState.isClosed]

theorem rank_le_after (sound : s.Sound) (k : Kernel) (event : Event) :
    s.state.rank ≤ (s.after k event).1.state.rank := by
  have last : s.state.rank ≤ SessionState.closed.rank := by cases s.state <;> decide
  have turns := s.after_turns k event
  cases answered : s.answer k event with
  | error failure =>
    rcases turns.failed failure answered with same | closed
    · exact Nat.le_of_eq (congrArg _ same.symm)
    · exact closed ▸ last
  | ok value =>
    rw [turns.made answered]
    exact rank_le_target (suits_of_ok sound answered)

theorem rank_le_meets (sound : s.Sound) (history : List (Kernel × Event)) :
    s.state.rank ≤ (s.meets history).state.rank := by
  induction history generalizing s with
  | nil => exact Nat.le_refl _
  | cons entry rest ih =>
    exact Nat.le_trans (rank_le_after sound entry.1 entry.2)
      (ih ((s.after_turns entry.1 entry.2).sound sound))

theorem closed_refuses (sound : s.Sound) (closed : s.state = .closed) {event : Event}
    (refusable : event.isRefusable = true) : s.refuses event = true := by
  have none : s.extension.isNone = true := by
    rw [← Option.not_isSome, sound, closed]
    rfl
  cases event <;> simp_all [refuses, SessionState.isClosed, SessionState.canAttach]

/-- The life of a session that meets any kernels and does anything on them. Its state never goes back; a
call that succeeds was meant for the state and leads where it should, and one that fails leaves the state
or ends the session; what the session refuses for its state or for want of an extension is an illegal
state and changes neither the session nor the kernel; and a closed session refuses all but to be closed,
which changes nothing either. -/
theorem lifecycle_never_goes_back (id : String) (host : HostSettings) (t : Tunables)
    (history : List (Kernel × Event)) :
    let s := (new id host t).meets history
    (∀ later, s.state.rank ≤ (s.meets later).state.rank) ∧
    s.extension.isSome = s.state.hasExtension ∧
    ∀ k event,
      (s.answer k event = .ok () →
        event.suits s.state = true ∧ (s.after k event).1.state = event.target s.state) ∧
      (∀ failure, s.answer k event = .error failure →
        (s.after k event).1.state = s.state ∨ (s.after k event).1.state = .closed) ∧
      (s.refuses event = true →
        (∃ message, s.answer k event = .error (.illegalState message)) ∧ s.after k event = (s, k)) ∧
      (s.state = .closed →
        (s.answer k .close = .ok () ∧ s.after k .close = (s, k)) ∧
        (event.isRefusable = true →
          (∃ message, s.answer k event = .error (.illegalState message)) ∧ s.after k event = (s, k))) := by
  intro s
  have sound : s.Sound := meets_sound (new_sound id host t) history
  refine ⟨rank_le_meets sound, sound, fun k event => ⟨fun answered => ?_, ?_, ?_, fun closed => ⟨?_, ?_⟩⟩⟩
  · exact ⟨suits_of_ok sound answered, (s.after_turns k event).made answered⟩
  · exact (s.after_turns k event).failed
  · exact fun refused => refused_unchanged sound refused k
  · simp only [answer, after, close_closed closed, and_self]
  · exact fun refusable => refused_unchanged sound (closed_refuses sound closed refusable) k

end Session

end LoadableSched
