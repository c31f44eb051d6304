import LoadableSched.Proofs.Class.Carrying

/-!
Policies come and go, and so do tasks: what these operations keep.
-/

namespace LoadableSched.SchedClass

variable {ω : Type} {c : SchedClass ω} (agrees : c.Agrees []) (backed : c.Backed [])

include agrees backed

omit backed in
theorem install_serves (policy : Policy ω) :
    c.Serves (c.installInquiries policy) (c.install policy).2 ∧ (c.install policy).2.Agrees [] := by
  unfold install installInquiries
  cases active : c.policy with
  | some active => exact ⟨.refl c, agrees⟩
  | none =>
    have entered : c.Serves [] { c with policy := some policy } :=
      .still rfl rfl (fun _ => rfl) fun _ => rfl
    have same : ({ c with policy := some policy } : SchedClass ω).Agrees [] :=
      agrees.congr rfl agrees.tasks fun _ => rfl
    have places := introduce_places same policy
    have asked := entered.after_still (places.serves (i := ⟨{ c with policy := some policy }, policy, .init⟩) rfl)
    dsimp only
    rcases outcome : ({ c with policy := some policy } : SchedClass ω).introduce policy with ⟨_ | _, d⟩
    · rw [outcome] at places asked
      obtain ⟨serves, after⟩ := requeueOrphans_serves (places.agrees same)
      exact ⟨asked.trans_still serves, after⟩
    · rw [outcome] at places asked
      obtain ⟨serves, after⟩ := enableAll_serves (places.agrees same) d.tasks.keys
      have all := asked.trans serves
      have exited : (d.tasks.keys.foldl enable d).Serves []
          { d.tasks.keys.foldl enable d with exit := none } :=
        .still rfl rfl (fun _ => rfl) fun _ => rfl
      exact ⟨all.trans_still exited, after.congr rfl after.tasks fun _ => rfl⟩

theorem install_carries (policy : Policy ω) :
    c.Carries (c.installInquiries policy) (c.install policy).2 := by
  obtain ⟨serves, after⟩ := install_serves agrees policy
  exact serves.carries after backed

omit backed in
theorem uninstall_serves : c.Serves [] c.uninstall.2 ∧ c.uninstall.2.Agrees [] := by
  unfold uninstall
  split
  · exact ⟨.refl c, agrees⟩
  · exact requeueOrphans_serves agrees

theorem uninstall_carries : c.Carries [] c.uninstall.2 := by
  obtain ⟨serves, after⟩ := uninstall_serves agrees
  exact serves.carries after backed

omit agrees backed in
theorem state?_register (c : SchedClass ω) (task : Task) (other : Pid) :
    (c.register task).state? other = if other = task.pid then some .sleeping else c.state? other := by
  simp only [register, state?, Table.get?_insert]
  split <;> rfl

theorem register_spec {task : Task} (fresh : c.tasks.contains task.pid ≠ true) :
    (c.register task).Agrees [] ∧ (c.register task).Backed [] ∧ (c.Held → (c.register task).Held) := by
  have unknown : c.state? task.pid = none := by simpa [Table.contains_eq, state?] using fresh
  have apart : ∀ {other state}, c.state? other = some state → other ≠ task.pid := by
    intro other state found same
    rw [same, unknown] at found
    cases found
  have states := c.state?_register task
  refine ⟨⟨agrees.queues, agrees.tasks.insert _ _, agrees.distinct, ?_, ?_⟩,
    ⟨backed.processors, ?_⟩, ?_⟩
  · intro other waits
    have queued := agrees.queued other waits
    rw [states, if_neg (apart queued), queued]
  · intro other queued
    rw [states] at queued
    split at queued
    · cases queued
    · exact agrees.waits other queued
  · intro other cpu runs
    rw [states] at runs
    split at runs
    · cases runs
    · exact backed.running other cpu runs
  · intro held cpu other here
    have runs := held cpu other here
    rw [states, if_neg (apart runs), runs]

theorem addTask_carries (task : Task) : c.Carries (c.addTaskInquiries task) (c.addTask task).2 := by
  unfold addTask addTaskInquiries
  by_cases known : c.tasks.contains task.pid = true
  · simp only [if_pos known]
    exact (Serves.refl c).carries agrees backed
  simp only [if_neg known]
  obtain ⟨added, supported, holds⟩ := register_spec agrees backed known
  obtain ⟨serves, after⟩ := enable_serves added task.pid
  exact (serves.carries after supported).after rfl holds

theorem erase_carries {pid : Pid} {q : Queues} (moved : q.WellFormed) (distinct : q.waiting.Nodup)
    (rest : ∀ other, other ∈ q.waiting ↔ other ∈ c.queues.waiting ∧ other ≠ pid)
    (cpus : q.cpus = c.cpus) {current : List (Option Pid)} (length : current.length = c.current.length)
    (others : ∀ cpu : CpuId, current[cpu]?.join = c.current? cpu ∨
      c.current? cpu = some pid ∧ current[cpu]?.join = none)
    (left : c.Held → ∀ cpu : CpuId, current[cpu]?.join ≠ some pid) :
    c.Carries [] { c with tasks := c.tasks.erase pid, queues := q, current } := by
  let d : SchedClass ω := { c with tasks := c.tasks.erase pid, queues := q, current }
  have states : ∀ other, d.state? other = if other = pid then none else c.state? other := by
    intro other
    simp only [d, state?, Table.get?_erase]
    split <;> rfl
  refine ⟨cpus, ⟨moved, agrees.tasks.erase _, distinct, ?_, ?_⟩, ⟨?_, ?_⟩, ?_⟩
  · intro other waits
    obtain ⟨before, apart⟩ := (rest other).mp waits
    exact (states other).trans ((if_neg apart).trans (agrees.queued other before))
  · intro other queued
    rw [states] at queued
    split at queued
    · cases queued
    · rename_i apart
      exact .inl ((rest other).mpr ⟨(agrees.waits other queued).resolve_right List.not_mem_nil, apart⟩)
  · exact length.trans (backed.processors.trans cpus.symm)
  · intro other cpu runs
    rw [states] at runs
    split at runs
    · cases runs
    · rename_i apart
      have here := (backed.running other cpu runs).resolve_right List.not_mem_nil
      rcases others cpu with same | ⟨removed, _⟩
      · exact .inl (same.trans here)
      · exact absurd (Option.some.inj (here.symm.trans removed)) apart
  · intro held
    refine iff_of_true ?_ fun _ member => absurd member List.not_mem_nil
    intro cpu other here
    have apart : other ≠ pid := fun same => left held cpu (same ▸ here)
    rcases others cpu with same | ⟨_, none⟩
    · exact (states other).trans ((if_neg apart).trans (held cpu other (same.symm.trans here)))
    · exact absurd (none.symm.trans here) (by simp)

theorem removeTask_carries (pid : Pid) : c.Carries [] (c.removeTask pid).2 := by
  unfold removeTask
  cases found : c.tasks.get? pid with
  | none => exact (Serves.refl c).carries agrees backed
  | some slot =>
    have state : c.state? pid = some slot.state := by rw [state?, found]; rfl
    dsimp only
    split <;> rename_i kind <;> rw [kind] at state
    · have absent := not_waiting_of_state? agrees state (by simp)
      refine erase_carries agrees backed agrees.queues agrees.distinct ?_ rfl rfl
        (fun _ => .inl rfl) fun held => held.free state (by simp)
      intro other
      exact ⟨fun waits => ⟨waits, fun same => absent (same ▸ waits)⟩, And.left⟩
    · have waits := (agrees.waits pid state).resolve_right List.not_mem_nil
      have moved := Queues.remove_shifts agrees.queues pid
      rw [if_pos waits] at moved
      have taken := moved.waiting_lose
      have distinct := List.nodup_cons.mp (taken.nodup_iff.mp agrees.distinct)
      refine erase_carries agrees backed moved.wellFormed distinct.2 ?_ moved.cpus rfl
        (fun _ => .inl rfl) fun held => held.free state (by simp)
      intro other
      rw [taken.mem_iff, List.mem_cons]
      constructor
      · exact fun still => ⟨.inr still, fun same => distinct.1 (same ▸ still)⟩
      · rintro ⟨same | still, apart⟩
        · exact absurd same apart
        · exact still
    · rename_i cpu
      have absent := not_waiting_of_state? agrees state (by simp)
      have here := (backed.running pid cpu state).resolve_right List.not_mem_nil
      have moved := Queues.setIdle_shifts agrees.queues cpu true
      refine erase_carries agrees backed moved.wellFormed agrees.distinct ?_ moved.cpus
        (List.length_set ..) ?_ ?_
      · intro other
        exact ⟨fun waits => ⟨waits, fun same => absent (same ▸ waits)⟩, And.left⟩
      · intro other
        rw [current?_set]
        by_cases same : other = cpu
        · exact .inr ⟨same ▸ here, by simp [same]⟩
        · exact .inl (if_neg same)
      · intro held other there
        rw [current?_set] at there
        split at there
        · simp at there
        · rename_i apart
          have runs := held other pid there
          rw [state] at runs
          cases runs
          exact apart rfl

end LoadableSched.SchedClass
