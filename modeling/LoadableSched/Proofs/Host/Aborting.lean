import LoadableSched.Proofs.Host.Binding
import LoadableSched.Proofs.Session.Aborting

/-!
Attachments that fail on a host, whatever else has happened on it.
-/

namespace LoadableSched

namespace Host

/-- An attachment that succeeds attaches the session, and one that fails aborts it, whichever it is and
wherever it fails; only a scheduler that is refused for the maps of the extension is no end of the
session, which stays as it was. -/
theorem failed_attachment_aborts (cpus : Nat) (features : Features) (interfaces : List IfIndex)
    (files : FileTree) (settings : HostSettings) (events : List Event) (s : Session)
    (able : s.state.canAttach = true) (a : Session.Attachment) :
    let k := ((new cpus features interfaces files settings).afterAll events).kernel
    let result := s.perform k a
    (∀ value, result.1 = .ok value → result.2.1.state = .attached) ∧
    (∀ failure, result.1 = .error failure → failure.isIllegalState = false →
      (s.Aborted k result.2 ↔ ¬ s.Escapes k a failure)) ∧
    ∀ failure, s.Escapes k a failure → result.1.isOk = false ∧ s.Spared k result.2 := by
  intro k result
  have orderly : k.Orderly := afterAll_orderly (new_orderly ..) events
  have survives : s.Spared k result.2 → ¬ s.Aborted k result.2 := by
    rintro ⟨⟨_, _, same⟩, _⟩ aborted
    have closed : s.state = .closed := congrArg Session.state (same.symm.trans aborted.session)
    exact Session.not_closed_of_canAttach able closed
  have settled : s.Settles k result → (∀ failure, ¬ s.Escapes k a failure) →
      (∀ value, result.1 = .ok value → result.2.1.state = .attached) ∧
      (∀ failure, result.1 = .error failure → failure.isIllegalState = false →
        (s.Aborted k result.2 ↔ ¬ s.Escapes k a failure)) ∧
      ∀ failure, s.Escapes k a failure → result.1.isOk = false ∧ s.Spared k result.2 := by
    intro settles none
    refine ⟨settles.attached, fun failure failed _ => ?_, fun failure escapes => ?_⟩
    · exact iff_of_true (settles.aborted failure failed) (none failure)
    · exact absurd escapes (none failure)
  by_cases scheduler : ∃ shipped, a = .scheduler shipped
  · obtain ⟨shipped, rfl⟩ := scheduler
    cases free : s.scheduler with
    | some bound =>
      have refused : result = (.error (.illegalState ("session " ++ s.id ++ " already has a scheduler")), s, k) := by
        simp [result, Session.perform, Session.perform.forget, Session.attachScheduler, able, free, Except.map]
      rw [refused]
      refine ⟨?_, ?_, ?_⟩
      · rintro value ⟨⟩
      · rintro failure ⟨⟩ ⟨⟩
      · rintro failure ⟨_, none, _⟩
        cases free.symm.trans none
    | none =>
      rcases Session.attachScheduler_cases (k := k) able free shipped with
        ⟨failure, failed, misfit, spared⟩ | ⟨settles, fits⟩
      · have failed : result.1 = .error failure := congrArg (Except.map _) failed
        refine ⟨fun value made => ?_, fun other same legal => ?_, fun _ _ => ⟨?_, spared⟩⟩
        · cases failed.symm.trans made
        · cases failed.symm.trans same
          have misfit := misfit.resolve_left (by simp [legal])
          exact iff_of_false (survives spared) (not_not.mpr ⟨⟨shipped, rfl⟩, free, misfit⟩)
        · rw [failed]
          rfl
      · exact settled settles.forget fun failure escapes => fits failure escapes.2.2
  · refine settled (Session.perform_settles orderly able fun shipped is => scheduler ⟨shipped, is⟩) ?_
    exact fun failure escapes => scheduler escapes.1

/-- A program that is not there is looked for: the session is over, and its object gone. -/
theorem missing_program_aborts :
    let now := (new 1 {} [] .standard .default).afterAll
      [.openSession "own" .default, .session 0 (.load bareImage)]
    let s := (now.session? 0).getD (now.newSession "none" .default)
    let result := s.perform now.kernel (.program "missing")
    s.state.canAttach = true ∧ result.1.isOk = false ∧ s.Aborted now.kernel result.2 := by
  intro now s result
  have able : s.state.canAttach = true := by decide +kernel
  have legal : (match result.1 with
      | .error failure => failure.isIllegalState
      | .ok _ => true) = false := by decide +kernel
  obtain ⟨_, aborts, _⟩ := failed_attachment_aborts 1 {} [] .standard .default
    [.openSession "own" .default, .session 0 (.load bareImage)] s able (.program "missing")
  cases outcome : result.1 with
  | ok value => simp [outcome] at legal
  | error failure =>
    rw [outcome] at legal
    refine ⟨able, rfl, (aborts failure outcome legal).mpr ?_⟩
    rintro ⟨⟨_, ⟨⟩⟩, _⟩

def misfitImage : Image :=
  let manifest := { Manifest.new "sched" with maps := [⟨"enqueue_time", .hash, ⟨4, 8, 4⟩⟩] }
  ⟨manifest, Image.encode manifest⟩

/-- A scheduler is refused for such a map, and the session stays loaded with its object in the kernel. -/
theorem misfit_map_spares_session :
    let now := (new 4 {} [] .standard .default).afterAll
      [.openSession "own" .default, .session 0 (.load misfitImage)]
    let s := (now.session? 0).getD (now.newSession "none" .default)
    let result := s.perform now.kernel (.scheduler .roundRobin)
    (match result.1 with
      | .error failure => (failure.isIllegalState, failure.message)
      | .ok _ => (true, "")) = (false, "Map enqueue_time has kind hash, expected lru_hash") ∧
      s.state = .loaded ∧ result.2.1.state = .loaded ∧ result.2.2.objects.keys = [⟨1⟩] ∧
      result.2.2.releases = [] := by
  decide +kernel

end Host

end LoadableSched
