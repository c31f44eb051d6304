import LoadableSched.Kernel.Attach
import LoadableSched.Proofs.Class.Hearing

/-!
What the installation of a policy reports, and what came of the policy. The tasks that are registered
already come under it one after the other once its first callback succeeded; a policy that is removed
on the way is reported as installed nevertheless, and the reason is not kept.
-/

namespace LoadableSched.SchedClass

variable {ω : Type}

theorem enableAll_occasion (c : SchedClass ω) (pids : List Pid) :
    ∀ event ∈ (c.enableAllInquiries pids).map Inquiry.event, event.occasion ≠ .init := by
  induction pids generalizing c with
  | nil => exact fun _ member => absurd member List.not_mem_nil
  | cons pid rest ih =>
    rw [enableAllInquiries, List.map_append]
    refine List.forall_mem_append.mpr ⟨?_, ih _⟩
    unfold enableInquiries
    split <;> simp [Inquiry.event]

/-- A policy is refused because there is one, or for its first callback, or it is brought to the tasks
that are registered. -/
theorem install_cases (c : SchedClass ω) (policy : Policy ω) :
    (∃ active, c.policy = some active ∧ c.install policy = (.error (.busy active.name), c) ∧
      c.installHeard policy = []) ∨
    (c.policy = none ∧ ∃ reason d, introduce { c with policy := some policy } policy = (.error reason, d) ∧
      c.install policy = (.error reason, requeueOrphans { d with policy := none }) ∧
      c.installHeard policy = [⟨.init, some reason⟩]) ∨
    (c.policy = none ∧ ∃ d, introduce { c with policy := some policy } policy = (.ok (), d) ∧
      c.install policy = (.ok (), { d.tasks.keys.foldl enable d with exit := none }) ∧
      c.installHeard policy = ⟨.init, none⟩ :: (d.enableAllInquiries d.tasks.keys).map Inquiry.event) := by
  unfold install installHeard heard inquiries installInquiries
  cases c.policy with
  | some active => exact .inl ⟨active, rfl, rfl, rfl⟩
  | none =>
    right
    simp only [List.map_cons, Inquiry.event, Inquiry.failure, Inquiry.heed]
    cases introduce { c with policy := some policy } policy with
    | mk result d =>
      cases result with
      | error reason => exact .inl ⟨trivial, reason, d, rfl, rfl, rfl⟩
      | ok _ => exact .inr ⟨trivial, d, rfl, rfl, rfl⟩

theorem installed_policy (c : SchedClass ω) (policy : Policy ω)
    (done : (c.install policy).1 = .ok ()) :
    (c.install policy).2.exit = none ∧
    ((∀ event ∈ c.installHeard policy, event.failure = none) →
      (c.install policy).2.policy = some policy) ∧
    ((∃ event ∈ c.installHeard policy, event.failure ≠ none) → (c.install policy).2.policy = none) := by
  obtain ⟨_, _, made, _⟩ | ⟨_, reason, d, _, made, _⟩ | ⟨_, d, entered, made, heard⟩ :=
    c.install_cases policy
  · simp [made] at done
  · simp [made] at done
  · have there : d.policy = some policy := by
      have retains := introduce_retains { c with policy := some policy } policy
      rw [entered] at retains
      exact retains.policy
    obtain ⟨stays, leaves⟩ := (enableAll_hears d d.tasks.keys).policy_eq
    rw [made, heard]
    refine ⟨rfl, fun fine => ?_, ?_⟩
    · exact (stays fun event member => fine event (List.mem_cons_of_mem _ member)).trans there
    · rintro ⟨event, member, failed⟩
      rcases List.mem_cons.mp member with same | later
      · exact absurd (congrArg Event.failure same) failed
      · exact leaves ⟨event, later, failed⟩

theorem install_ok_iff (c : SchedClass ω) (policy : Policy ω) :
    (c.install policy).1 = .ok () ↔ c.policy = none ∧
      ∀ event ∈ c.installHeard policy, event.occasion = .init → event.failure = none := by
  obtain ⟨active, busy, made, _⟩ | ⟨free, reason, d, _, made, heard⟩ | ⟨free, d, _, made, heard⟩ :=
    c.install_cases policy
  · simp [made, busy]
  · simp [made, heard]
  · have later := d.enableAll_occasion d.tasks.keys
    rw [made, heard]
    refine iff_of_true rfl ⟨free, List.forall_mem_cons.mpr ⟨fun _ => rfl, ?_⟩⟩
    exact fun event member first => absurd first (later event member)

/-- What an installation reports can be relied on: the policy is there if it is reported as installed,
and if it is so in spite of a failure, then the failure is on record. -/
structure Truthful (c : SchedClass ω) (policy : Policy ω) : Prop where
  installed : (c.install policy).1 = .ok () → (c.install policy).2.policy = some policy
  recorded : ∀ event ∈ c.installHeard policy, ∀ reason, event.failure = some reason →
    (∃ e, (c.install policy).1 = .error e) ∨
      (c.install policy).2.exit = some ⟨policy.name, reason⟩

theorem truthful_iff (c : SchedClass ω) (policy : Policy ω) :
    c.Truthful policy ↔
      ∀ event ∈ c.installHeard policy, event.occasion ≠ .init → event.failure = none := by
  obtain ⟨active, _, made, heard⟩ | ⟨_, reason, d, _, made, heard⟩ | ⟨_, d, _, made, heard⟩ :=
    c.install_cases policy
  · refine iff_of_true ⟨by simp [made], by simp [heard]⟩ (by simp [heard])
  · refine iff_of_true ⟨by simp [made], fun _ _ _ _ => .inl ⟨reason, by rw [made]⟩⟩ (by simp [heard])
  · have done : (c.install policy).1 = .ok () := by rw [made]
    obtain ⟨exit, stays, leaves⟩ := c.installed_policy policy done
    constructor
    · intro truthful event member _
      apply Decidable.byContradiction
      intro failed
      have gone := leaves ⟨event, member, failed⟩
      rw [truthful.installed done] at gone
      cases gone
    · intro fine
      have all : ∀ event ∈ c.installHeard policy, event.failure = none := by
        rw [heard] at fine ⊢
        refine List.forall_mem_cons.mpr ⟨rfl, fun event member => ?_⟩
        exact fine event (List.mem_cons_of_mem _ member) (d.enableAll_occasion _ event member)
      refine ⟨fun _ => stays all, fun event member reason failed => ?_⟩
      rw [all event member] at failed
      cases failed

theorem attachStructOps_install {k k' : Kernel} {map : MapId} {policy : Policy Memory} {link : LinkId}
    (made : k.attachStructOps map policy = (.ok link, k')) :
    k'.links.get? link = some (.structOps map) ∧ (k.sched.install policy).1 = .ok () ∧
      k'.sched = (k.sched.install policy).2 := by
  unfold Kernel.attachStructOps at made
  split at made
  · simp at made
  · split at made <;> rename_i installed
    · simp at made
    · simp only [Kernel.newId, Prod.mk.injEq, Except.ok.injEq] at made
      obtain ⟨rfl, rfl⟩ := made
      rw [installed]
      exact ⟨by rw [Table.get?_insert, if_pos rfl], rfl, rfl⟩

/-- What is reported depends on the first callback alone, and a failure in a later one is not kept:
what is reported can be relied on exactly if no such failure occurs. The link of a scheduler is handed
out either way. -/
theorem install_truthful_iff (c : SchedClass ω) (policy : Policy ω) :
    ((c.install policy).1 = .ok () ↔ c.policy = none ∧
      ∀ event ∈ c.installHeard policy, event.occasion = .init → event.failure = none) ∧
    ((c.install policy).1 = .ok () → (c.install policy).2.exit = none ∧
      ((∀ event ∈ c.installHeard policy, event.failure = none) →
        (c.install policy).2.policy = some policy) ∧
      ((∃ event ∈ c.installHeard policy, event.failure ≠ none) →
        (c.install policy).2.policy = none)) ∧
    (c.Truthful policy ↔
      ∀ event ∈ c.installHeard policy, event.occasion ≠ .init → event.failure = none) ∧
    (∀ (k k' : Kernel) (map : MapId) (policy : Policy Memory) (link : LinkId),
      k.attachStructOps map policy = (.ok link, k') →
      k'.links.get? link = some (.structOps map) ∧
      (k'.sched.policy = some policy ↔
        ∀ event ∈ k.sched.installHeard policy, event.failure = none)) := by
  refine ⟨c.install_ok_iff policy, c.installed_policy policy, c.truthful_iff policy, ?_⟩
  intro k k' map policy link made
  obtain ⟨live, done, same⟩ := attachStructOps_install made
  obtain ⟨_, stays, leaves⟩ := k.sched.installed_policy policy done
  rw [same]
  refine ⟨live, fun there event member => Decidable.byContradiction fun failed => ?_, stays⟩
  have gone := leaves ⟨event, member, failed⟩
  rw [there] at gone
  cases gone

/-- A policy that gives up as soon as a task comes under it. -/
def reluctant : Policy Unit where
  name := "reluctant"
  init := .done 0
  selectCpu _ previous _ := .done previous
  enqueue task _ := .place task.pid globalQueue 1000
  dispatch _ _ := .done ()
  enable task := do
    .giveUp "no"
    return task

/-- A policy is reported as installed that is gone by then, and nobody can tell why. -/
theorem refused_task_is_forgotten :
    let c := (new 1 ()).steps [.addTask { pid := 1 }]
    (c.install reluctant).1 = .ok () ∧ (c.install reluctant).2.policy.isNone ∧
      (c.install reluctant).2.exit = none ∧
      c.installHeard reluctant = [⟨.init, none⟩, ⟨.task 1 .enable, some (.policy "no")⟩] ∧
      ¬ c.Truthful reluctant := by
  refine ⟨rfl, rfl, rfl, rfl, fun truthful => ?_⟩
  have there := congrArg Option.isSome (truthful.installed rfl)
  cases there

end LoadableSched.SchedClass
