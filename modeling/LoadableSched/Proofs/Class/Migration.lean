import LoadableSched.Proofs.Class.Placing

/-!
The removal of a policy: its queues are destroyed and every waiting task finds its way to the global
queue, whatever the policy was in the middle of.
-/

namespace LoadableSched.SchedClass

variable {ω : Type} {c d : SchedClass ω} {loose : List Pid}

theorem enqueueGlobal_places (agrees : c.Agrees loose) {pid : Pid}
    (registered : c.tasks.contains pid = true) (absent : pid ∉ c.queues.waiting) :
    ∃ d, c.enqueueGlobal pid = .ok d ∧ c.Places d ∧
      d.queues.waiting.Perm (pid :: c.queues.waiting) := by
  obtain ⟨r, pushed⟩ := Queues.push_global agrees.queues 0 pid
  refine ⟨_, by rw [enqueueGlobal, pushed], push_places agrees pushed registered absent _, ?_⟩
  exact (Queues.push_shifts agrees.queues pushed).waiting_gain

theorem enqueueAllGlobal_places (agrees : c.Agrees loose) {pids : List Pid} (distinct : pids.Nodup)
    (registered : ∀ pid ∈ pids, c.tasks.contains pid = true)
    (absent : ∀ pid ∈ pids, pid ∉ c.queues.waiting) :
    c.Places (c.enqueueAllGlobal pids) ∧
      (c.enqueueAllGlobal pids).queues.waiting.Perm (pids ++ c.queues.waiting) := by
  induction pids generalizing c with
  | nil => exact ⟨Places.refl agrees, .refl _⟩
  | cons pid rest ih =>
    obtain ⟨fresh, distinct⟩ := List.nodup_cons.mp distinct
    obtain ⟨d, made, places, waiting⟩ :=
      enqueueGlobal_places agrees (registered pid List.mem_cons_self) (absent pid List.mem_cons_self)
    have unfolded : c.enqueueAllGlobal (pid :: rest) = d.enqueueAllGlobal rest := by
      simp only [enqueueAllGlobal, List.foldl_cons, made, Except.toOption, Option.getD_some]
    have still : ∀ other ∈ rest, d.tasks.contains other = true := fun other member =>
      (places.contains other).trans (registered other (List.mem_cons_of_mem _ member))
    have apart : ∀ other ∈ rest, other ∉ d.queues.waiting := by
      intro other member waits
      rcases List.mem_cons.mp (waiting.mem_iff.mp waits) with same | waits
      · exact fresh (same ▸ member)
      · exact absent other (List.mem_cons_of_mem _ member) waits
    obtain ⟨later, all⟩ := ih (places.agrees agrees) distinct still apart
    rw [unfolded]
    refine ⟨places.trans later, all.trans ?_⟩
    exact (waiting.append_left rest).trans List.perm_middle

theorem mem_stranded (ordered : c.tasks.Ordered) (orphans : List Pid) (pid : Pid) :
    pid ∈ c.stranded orphans ↔
      c.state? pid = some .queued ∧ pid ∉ orphans ∧ pid ∉ c.queues.waiting := by
  rw [stranded, ← Table.contains_iff_mem_keys, Table.contains_iff_exists]
  simp only [ordered.get?_filter, Queues.contains, state?, Option.map_eq_some_iff, Bool.and_eq_true,
    decide_eq_true_eq, Bool.not_eq_true', ← Bool.not_eq_true, List.contains_iff_mem]
  constructor
  · rintro ⟨slot, found, ⟨queued, fresh⟩, absent⟩
    exact ⟨⟨slot, found, queued⟩, fresh, absent⟩
  · rintro ⟨⟨slot, found, queued⟩, fresh, absent⟩
    exact ⟨slot, found, ⟨queued, fresh⟩, absent⟩

theorem contains_of_state? {pid : Pid} {state : RunState} (h : c.state? pid = some state) :
    c.tasks.contains pid = true := by
  obtain ⟨slot, found, _⟩ := Option.map_eq_some_iff.mp h
  exact Table.contains_iff_exists.mpr ⟨slot, found⟩

def orphaned (c : SchedClass ω) : SchedClass ω :=
  { c with queues := c.queues.destroyPolicyQueues.2 }

theorem enqueueGlobal_sameNumbers {pid : Pid} (made : c.enqueueGlobal pid = .ok d) :
    c.queues.SameNumbers d.queues := by
  obtain ⟨r, pushed, rfl⟩ := enqueueGlobal_inv made
  exact Queues.push_sameNumbers pushed

theorem enqueueAllGlobal_sameNumbers (c : SchedClass ω) (pids : List Pid) :
    c.queues.SameNumbers (c.enqueueAllGlobal pids).queues := by
  apply enqueueAllGlobal_closure (R := fun c d => c.queues.SameNumbers d.queues)
  · exact fun c => .refl c.queues
  · exact Queues.SameNumbers.trans
  · exact enqueueGlobal_sameNumbers

theorem requeueOrphans_onlyBuiltin (c : SchedClass ω) : c.requeueOrphans.queues.OnlyBuiltin := by
  intro queue present
  have numbers : c.orphaned.queues.SameNumbers c.requeueOrphans.queues :=
    enqueueAllGlobal_sameNumbers _ _
  exact Queues.destroyPolicyQueues_builtin ((numbers queue).symm.trans present)

section

variable (agrees : c.Agrees loose)

include agrees

theorem orphaned_agrees :
    c.orphaned.Agrees (c.queues.destroyPolicyQueues.1 ++ loose) ∧
      (c.queues.destroyPolicyQueues.1 ++ c.orphaned.queues.waiting).Perm c.queues.waiting := by
  have moved := Queues.destroyPolicyQueues_shifts agrees.queues
  have split : (c.queues.destroyPolicyQueues.1 ++ c.orphaned.queues.waiting).Perm
      c.queues.waiting := by
    have waiting := moved.waiting
    rw [List.append_nil] at waiting
    exact List.perm_append_comm.trans waiting
  have distinct := split.nodup_iff.mpr agrees.distinct
  refine ⟨⟨moved.wellFormed, agrees.tasks, (List.nodup_append.mp distinct).2.1, ?_, ?_⟩, split⟩
  · intro pid waits
    exact agrees.queued pid (split.mem_iff.mp (List.mem_append_right _ waits))
  · intro pid queued
    rcases agrees.waits pid queued with waits | known
    · rcases List.mem_append.mp (split.mem_iff.mpr waits) with orphan | waits
      · exact .inr (List.mem_append_left _ orphan)
      · exact .inl waits
    · exact .inr (List.mem_append_right _ known)

theorem requeueOrphans_places :
    c.orphaned.Places c.requeueOrphans ∧ c.requeueOrphans.Agrees [] ∧
      ∀ pid, c.requeueOrphans.state? pid = c.state? pid := by
  obtain ⟨loosened, split⟩ := orphaned_agrees agrees
  obtain ⟨orphansDistinct, _, apart⟩ :=
    List.nodup_append.mp (split.nodup_iff.mpr agrees.distinct)
  let orphans := c.queues.destroyPolicyQueues.1
  let pids := orphans ++ c.orphaned.stranded orphans
  have queued : ∀ pid ∈ pids, c.state? pid = some .queued ∧ pid ∉ c.orphaned.queues.waiting := by
    intro pid member
    rcases List.mem_append.mp member with orphan | left
    · refine ⟨agrees.queued pid (split.mem_iff.mp (List.mem_append_left _ orphan)), ?_⟩
      exact fun waits => apart pid orphan pid waits rfl
    · obtain ⟨state, _, absent⟩ := (mem_stranded loosened.tasks _ _).mp left
      exact ⟨state, absent⟩
  have distinct : pids.Nodup := by
    refine List.nodup_append.mpr ⟨orphansDistinct, (loosened.tasks.filter _).nodup, ?_⟩
    intro pid orphan other left same
    exact ((mem_stranded loosened.tasks _ _).mp left).2.1 (same ▸ orphan)
  obtain ⟨places, waiting⟩ := enqueueAllGlobal_places loosened distinct
    (fun pid member => contains_of_state? (c := c.orphaned) (queued pid member).1)
    (fun pid member => (queued pid member).2)
  have states : ∀ pid, c.requeueOrphans.state? pid = c.state? pid := by
    intro pid
    rcases places.placed pid with ⟨same, _⟩ | ⟨absent, there, slot, slice, _, after⟩
    · exact congrArg (Option.map Slot.state) same
    · have moved : pid ∈ pids :=
        (List.mem_append.mp (waiting.mem_iff.mp there)).resolve_right absent
      rw [(queued pid moved).1]
      exact congrArg (Option.map Slot.state) after
  have after := places.agrees loosened
  refine ⟨places, ⟨after.queues, after.tasks, after.distinct, after.queued, ?_⟩, states⟩
  -- A task that waits and was not put on the global queue is on a queue that was not destroyed.
  intro pid state
  left
  rw [states pid] at state
  apply waiting.mem_iff.mpr
  by_cases there : pid ∈ c.orphaned.queues.waiting
  · exact List.mem_append_right _ there
  · apply List.mem_append_left
    by_cases orphan : pid ∈ orphans
    · exact List.mem_append_left _ orphan
    · exact List.mem_append_right _ ((mem_stranded loosened.tasks _ _).mpr ⟨state, orphan, there⟩)

theorem requeueOrphans_agrees : c.requeueOrphans.Agrees [] := (requeueOrphans_places agrees).2.1

theorem requeueOrphans_state? (pid : Pid) : c.requeueOrphans.state? pid = c.state? pid :=
  (requeueOrphans_places agrees).2.2 pid

theorem requeueOrphans_follows : c.Follows c.requeueOrphans := by
  have moved := Queues.destroyPolicyQueues_shifts agrees.queues
  have first : c.Follows c.orphaned := ⟨rfl, rfl, moved.cpus, fun _ => .inl rfl⟩
  exact first.trans (requeueOrphans_places agrees).1.toFollows

theorem requeueOrphans_policy : c.requeueOrphans.policy = c.policy :=
  (requeueOrphans_places agrees).1.policy

theorem requeueOrphans_exit : c.requeueOrphans.exit = c.exit :=
  (requeueOrphans_places agrees).1.exit

end

end LoadableSched.SchedClass
