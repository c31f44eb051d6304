import LoadableSched.Proofs.Host.Isolation
import LoadableSched.Proofs.Session.Aging

/-!
The end of a session: everything that belongs to it is tried in the order of dependency, and the kernel's
log tells what was given back, whatever the other sessions of the host have done.
-/

namespace LoadableSched

namespace Host

variable {h h' : Host}

def Familiar (h : Host) : Prop := ∀ i s, h.session? i = some s → s.Knows h.kernel

theorem Familiar.age (familiar : h.Familiar) (ages : h.kernel.Ages h'.kernel)
    (sessions : ∀ i s, h'.session? i = some s → h.session? i = some s ∨ s.Knows h'.kernel) : h'.Familiar := by
  intro i s there
  rcases sessions i s there with before | knows
  · exact (familiar i s before).age ages
  · exact knows

theorem Familiar.after (familiar : h.Familiar) (orderly : h.kernel.Orderly) (event : Event) :
    (h.after event).Familiar := by
  cases event with
  | openSession id t =>
    refine familiar.age (.refl _) fun j s there => ?_
    rw [Host.after, session?_openSession] at there
    split at there
    · cases Option.some.inj there
      exact .inr ⟨by rintro h ⟨⟩, by rintro ⟨⟩⟩
    · exact .inl there
  | session i event =>
    cases here : h.session? i with
    | none => rwa [after_session_absent here]
    | some s =>
      obtain ⟨knows, ages⟩ := Session.after_knows orderly (familiar i s here) event
      rw [← kernel_after_session here] at knows ages
      refine familiar.age ages fun j other there => ?_
      rw [session?_after_session here] at there
      split at there
      · exact .inr (Option.some.inj there ▸ knows)
      · exact .inl there
  | drop i =>
    cases here : h.session? i with
    | none => rwa [after_drop_absent here]
    | some s =>
      have closing := Session.close_moves (fun _ => False) s h.kernel
      have ages := (closing.knows orderly (familiar i s here)).2
      have kernel : (h.after (.drop i)).kernel = (s.close h.kernel).2.2 := by
        simp only [Host.after, dropSession_kernel, here]
      rw [← kernel] at ages
      refine familiar.age ages fun j other there => ?_
      rw [session?_after_drop here] at there
      split at there
      · cases there
      · exact .inl there
  | load image =>
    refine familiar.age ?_ fun j s there => .inl ((session?_load h image j).symm.trans there)
    rw [Host.after, load_kernel]
    exact (Extension.load_adds _ image).toAlike.ages
  | bind map policy => exact familiar.age (Kernel.attachStructOps_ages orderly.numbered rfl) fun _ _ => .inl
  | unbind link =>
    refine familiar.age ?_ fun _ _ => .inl
    simp only [Host.after]
    cases made : h.kernel.destroyLink link with
    | error e => exact .refl _
    | ok k' => exact (Holding.releaseIn_clears (h := .link link "") made).toLoses.ages
  | schedule op => exact familiar.age (.of_links (fun _ => rfl) (Nat.le_refl _)) fun _ _ => .inl

theorem Familiar.afterAll (familiar : h.Familiar) (orderly : h.kernel.Orderly) (events : List Event) :
    (h.afterAll events).Familiar := by
  induction events generalizing h with
  | nil => exact familiar
  | cons event rest ih => exact ih (familiar.after orderly event) (after_orderly orderly event)

theorem new_familiar (cpus : Nat) (features : Features) (interfaces : List IfIndex) (files : FileTree)
    (settings : HostSettings) : (new cpus features interfaces files settings).Familiar := by
  intro i s there
  cases there

end Host

namespace Session

variable {s : Session} {k : Kernel}

theorem attempts_log_sorted (sound : ∀ b ∈ s.due, b.Matches k) :
    let log := (Belonging.released (Belonging.attempts k s.due).1).filterMap Belonging.record?
    (Belonging.attempts k s.due).2.releases = k.releases ++ log ∧ log.Pairwise (·.rank ≤ ·.rank) := by
  refine ⟨Belonging.attempts_log sound, ?_⟩
  have sorted := (Belonging.byRank_sorted s.belongings).sublist (Belonging.released_sublist k s.due)
  refine List.Pairwise.filterMap _ (fun b b' below r made r' made' => ?_) sorted
  rw [Belonging.rank_of_record made, Belonging.rank_of_record made']
  exact below

/-- To close a session in any state is to try everything that belongs to it, each thing once: by kind in
the order of dependency, of one kind the latest first, and past all failures, which are reported together.
The session is empty afterwards, and to close it again or to drop it changes nothing. Of any session in
any run of a host, what is given back is entered in the kernel's log in the order of the kinds. -/
theorem close_tries_all_in_order (s : Session) (k : Kernel) :
    let tried := Belonging.attempts k s.due
    let failures := Belonging.failures tried.1
    (s.due.Perm s.belongings ∧ s.due.Pairwise (·.rank ≤ ·.rank) ∧
      (∀ rank, s.due.filter (·.rank = rank) = (s.belongings.filter (·.rank = rank)).reverse) ∧
      tried.1.map (·.1) = s.due) ∧
    (s.state ≠ .closed →
      s.close k = (if failures = [] then .ok () else .error (.teardown failures), s.emptied, tried.2)) ∧
    (s.state = .closed → s.close k = (.ok (), s, k)) ∧
    s.emptied.state = .closed ∧ s.emptied.belongings = [] ∧
    (∀ later, s.emptied.close later = (.ok (), s.emptied, later)) ∧
    (∀ (cpus : Nat) (features : Features) (interfaces : List IfIndex) (files : FileTree)
      (settings : HostSettings) (events : List Host.Event) (i : Nat),
      let h := (Host.new cpus features interfaces files settings).afterAll events
      h.session? i = some s → h.kernel = k →
      (s.state = .closed → s.belongings = []) ∧
      ∃ log, (s.close k).2.2.releases = k.releases ++ log ∧ log.Pairwise (·.rank ≤ ·.rank) ∧
        log = (Belonging.released tried.1).filterMap Belonging.record?) := by
  intro tried failures
  have again : s.state = .closed → s.close k = (.ok (), s, k) := fun closed => close_closed closed k
  refine ⟨⟨Belonging.byRank_perm _, Belonging.byRank_sorted _, Belonging.byRank_filter _,
    Belonging.attempts_fst k _⟩, fun unclosed => close_eq unclosed k, again, rfl, rfl,
    fun _ => rfl, ?_⟩
  intro cpus features interfaces files settings events i h there same
  have start := Host.new_familiar cpus features interfaces files settings
  have knows : s.Knows k := same ▸ start.afterAll (Host.new_orderly ..) events i s there
  refine ⟨knows.belongings, ?_⟩
  by_cases closed : s.state = .closed
  · have nothing : s.due = [] := by
      rw [due, knows.belongings closed]
      rfl
    refine ⟨[], ?_, .nil, ?_⟩
    · rw [again closed, List.append_nil]
    · simp only [tried, nothing]
      rfl
  · obtain ⟨log, sorted⟩ := attempts_log_sorted knows.fits
    refine ⟨_, ?_, sorted, rfl⟩
    rw [close_eq closed k]
    exact log

end Session

end LoadableSched
