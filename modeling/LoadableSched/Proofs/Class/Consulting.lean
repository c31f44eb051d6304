import LoadableSched.Proofs.Class.Retaining
import LoadableSched.Proofs.Class.Requesting

/-!
What the class makes of a callback: it goes wrong exactly if it gave a reason to, and the first reason is
the one that counts. Nothing is assumed of the state of the class.
-/

namespace LoadableSched.SchedClass

variable {ω α : Type} {c d e : SchedClass ω} {cpu : CpuId}

namespace Inquiry

variable (i : Inquiry ω)

theorem ran_error : i.ran.2.error = i.misuses.head? :=
  (Callback.run_error _ _ (i.policy.answer i.matter) _).trans (by rfl)

variable {i}

theorem ran_proper (proper : i.misuses = []) : i.ran.2.error = none := by
  rw [ran_error, proper]
  rfl

theorem ran_placements (proper : i.misuses = []) : i.ran.2.placements = i.dispatches :=
  Callback.run_placements _ _ (i.policy.answer i.matter) _ (ran_proper proper)

theorem dispatches_known (proper : i.misuses = []) :
    ∀ p ∈ i.dispatches, i.called.queues.has p.queue = true := by
  have known : i.ran.2.Known := Callback.run_known _ _ (i.policy.answer i.matter) (by simp [Progress.Known])
  rw [← ran_placements proper]
  exact known

theorem place_dispatches (proper : i.misuses = []) (cpu : CpuId) :
    (i.called.place cpu [] i.dispatches).1 =
      match (i.called.faults cpu [] i.dispatches).head? with
      | some e => .error e
      | none => .ok (i.dispatches.map (·.pid)) :=
  place_answer (dispatches_known proper) []

def Enables (i : Inquiry ω) : Prop := ∃ pid task, i.matter = .enable pid task

theorem faultsOn_placed (other : ¬ i.Enables) (cpu : CpuId) :
    i.faultsOn cpu = i.called.faults cpu [] i.dispatches := by
  unfold faultsOn
  split
  · rename_i enables
    exact absurd ⟨_, _, enables⟩ other
  · rfl

theorem heed_misuse {reason : ClassError} (misuse : i.ran.2.error = some reason) :
    i.heed = (some reason, i.called) := by
  obtain ⟨before, policy, matter⟩ := i
  cases matter <;>
    simp only [ran, Policy.answer, Matter.cpu, invoke_map] at misuse <;>
    simp only [heed, introduce, chooseCpu, callAndPlace, call_flawed misuse, failure?, called, ran,
      Policy.answer, Matter.cpu, invoke_map]

theorem heed_refused {reason : ClassError} (proper : i.ran.2.error = none)
    (refused : i.refusals.head? = some reason) : i.heed = (some reason, i.called) := by
  obtain ⟨before, policy, matter⟩ := i
  cases matter with
  | init =>
    simp only [ran, refusals, called, Policy.answer, Matter.cpu, invoke_map] at proper refused ⊢
    split at refused
    · rename_i nonzero
      cases Option.some.inj refused
      simp only [heed, introduce, call_proper proper, if_pos nonzero, failure?]
    · cases refused
  | selectCpu task flags =>
    simp only [ran, refusals, called, Policy.answer, Matter.cpu, invoke_map] at proper refused ⊢
    split at refused
    · rename_i beyond
      rw [← invoke_cpus before task.lastCpu (policy.selectCpu task task.lastCpu flags)] at beyond
      cases Option.some.inj refused
      simp only [heed, chooseCpu, call_proper proper, if_pos beyond, failure?]
    · cases refused
  | enqueue | dispatch | running | stopping | enable =>
    simp only [refusals, ran, Policy.answer, invoke_map] at refused
    cases refused

theorem heed_flawed {reason : ClassError} (flawed : (i.misuses ++ i.refusals).head? = some reason) :
    i.heed = (some reason, i.called) := by
  rw [List.head?_append, ← ran_error] at flawed
  cases misuse : i.ran.2.error with
  | some e =>
    rw [misuse, Option.some_or] at flawed
    exact Option.some.inj flawed ▸ heed_misuse misuse
  | none =>
    rw [misuse, Option.none_or] at flawed
    exact heed_refused misuse flawed

theorem heed_placed (proper : i.misuses = []) (accepted : i.refusals = []) (other : ¬ i.Enables) :
    i.heed = ((i.faultsOn i.localCpu ++ i.omissions).head?,
      (i.called.place i.localCpu [] i.dispatches).2) := by
  have answer := place_dispatches proper i.localCpu
  have asked := ran_placements proper
  have fine := ran_proper proper
  rw [List.head?_append]
  obtain ⟨before, policy, matter⟩ := i
  cases matter with
  | init =>
    simp only [refusals, called, localCpu, faultsOn, omissions, ran, Policy.answer, Matter.cpu,
      invoke_map] at accepted answer asked fine ⊢
    have zero : (before.invoke 0 policy.init).1 = 0 := by simpa using accepted
    simp only [heed, introduce, call_proper fine, asked, zero]
    generalize place _ _ _ _ = made at answer ⊢
    obtain ⟨done, d⟩ := made
    dsimp only at answer
    subst answer
    cases (faults _ _ _ _).head? <;> rfl
  | selectCpu task flags =>
    simp only [refusals, called, localCpu, faultsOn, omissions, ran, Policy.answer, Matter.cpu,
      invoke_map] at accepted answer asked fine ⊢
    have inside : ¬ before.cpus ≤ (before.invoke task.lastCpu
        (policy.selectCpu task task.lastCpu flags)).1 := by simpa using accepted
    rw [← invoke_cpus before task.lastCpu (policy.selectCpu task task.lastCpu flags)] at inside
    simp only [heed, chooseCpu, call_proper fine, asked, if_neg inside]
    generalize place _ _ _ _ = made at answer ⊢
    obtain ⟨done, d⟩ := made
    dsimp only at answer
    subst answer
    cases (faults _ _ _ _).head? <;> rfl
  | enqueue pid task cpu flags =>
    simp only [called, localCpu, faultsOn, omissions, ran, Policy.answer, Matter.cpu,
      invoke_map] at answer asked fine ⊢
    simp only [heed, callAndPlace, call_proper fine, asked]
    generalize place _ _ _ _ = made at answer ⊢
    obtain ⟨done, d⟩ := made
    dsimp only at answer
    subst answer
    cases (faults _ _ _ _).head? with
    | some e => rfl
    | none =>
      have placed : ∀ ps : List Placement, (ps.map (·.pid)).contains pid = ps.any (·.pid = pid) := by
        intro ps
        rw [Bool.eq_iff_iff]
        simp
      dsimp only
      rw [placed]
      cases (dispatches _).any (·.pid = pid) <;> rfl
  | dispatch | running | stopping =>
    simp only [called, localCpu, faultsOn, omissions, ran, Policy.answer, Matter.cpu,
      invoke_map] at answer asked fine ⊢
    simp only [heed, callAndPlace, call_proper fine, asked, answer]
    cases (faults _ _ _ _).head? <;> rfl
  | enable pid task => exact absurd ⟨pid, task, rfl⟩ other

theorem heed_enabled (proper : i.misuses = []) (enables : i.Enables) :
    ∃ pid record, i.heed = (none, i.called.mapTask pid fun _ => record) := by
  have fine := ran_proper proper
  obtain ⟨before, policy, matter⟩ := i
  obtain ⟨pid, task, enables⟩ := enables
  cases enables
  simp only [called, ran, Policy.answer, Matter.cpu, invoke_map] at fine ⊢
  refine ⟨pid, (before.invoke task.lastCpu (policy.enable task)).1, ?_⟩
  simp only [heed, call_proper fine]

/-- All that the class can make of a callback. -/
inductive Heeded (i : Inquiry ω) : Prop where
  | flawed (reason : ClassError) (first : (i.misuses ++ i.refusals).head? = some reason)
      (heeds : i.heed = (some reason, i.called))
  | placed (proper : i.misuses = []) (accepted : i.refusals = []) (other : ¬ i.Enables)
      (heeds : i.heed = ((i.faultsOn i.localCpu ++ i.omissions).head?,
        (i.called.place i.localCpu [] i.dispatches).2))
  | enabled (proper : i.misuses = []) (accepted : i.refusals = []) (enables : i.Enables) (pid : Pid)
      (record : Task) (heeds : i.heed = (none, i.called.mapTask pid fun _ => record))

theorem heeded (i : Inquiry ω) : i.Heeded := by
  cases flawed : (i.misuses ++ i.refusals).head? with
  | some reason => exact .flawed reason flawed (heed_flawed flawed)
  | none =>
    obtain ⟨proper, accepted⟩ := List.append_eq_nil_iff.mp (List.head?_eq_none_iff.mp flawed)
    by_cases enables : i.Enables
    · obtain ⟨pid, record, heeds⟩ := heed_enabled proper enables
      exact .enabled proper accepted enables pid record heeds
    · exact .placed proper accepted enables (heed_placed proper accepted enables)

/-- What goes wrong in a callback is the first of the reasons that it gives. -/
theorem failure_eq (i : Inquiry ω) : i.failure = i.reasons.head? := by
  unfold failure reasons reasonsOn
  cases i.heeded with
  | flawed reason first heeds =>
    rw [heeds, List.append_assoc, List.head?_append, first]
    rfl
  | placed proper accepted other heeds =>
    rw [heeds, proper, accepted]
    rfl
  | enabled proper accepted enables pid record heeds =>
    obtain ⟨_, _, enables⟩ := enables
    rw [heeds, proper, accepted, faultsOn, omissions, enables]
    rfl

theorem reached_retains (i : Inquiry ω) : i.before.Retains i.reached := by
  obtain ⟨before, policy, matter⟩ := i
  cases matter with
  | init => exact before.introduce_retains policy
  | selectCpu task flags => exact before.chooseCpu_retains policy task flags
  | enqueue pid task cpu flags =>
    have retains := before.callAndPlace_retains cpu (policy.enqueue task flags)
    simp only [reached, heed]
    split <;> rename_i outcome <;> rw [outcome] at retains <;> exact retains
  | dispatch cpu previous => exact before.callAndPlace_retains cpu _
  | running cpu task => exact before.callAndPlace_retains cpu _
  | stopping cpu task runnable => exact before.callAndPlace_retains cpu _
  | enable pid task =>
    have retains := before.call_retains task.lastCpu (policy.enable task)
    simp only [reached, heed]
    split <;> rename_i outcome <;> rw [outcome] at retains
    · exact retains
    · exact retains.trans rfl

theorem after_eq (i : Inquiry ω) : i.after =
    match i.failure with
    | none => i.reached
    | some reason =>
      if i.matter = .init then requeueOrphans { i.reached with policy := none }
      else i.reached.abort reason := by
  unfold after failure reached
  generalize i.heed = made
  obtain ⟨_ | _, d⟩ := made <;> rfl

theorem after_fine (fine : i.failure = none) : i.after = i.reached := by
  rw [after_eq, fine]

theorem after_failed {reason : ClassError} (failed : i.failure = some reason)
    (later : i.matter ≠ .init) : i.after = i.reached.abort reason := by
  simp only [after_eq, failed, if_neg later]

theorem after_refused {reason : ClassError} (failed : i.failure = some reason)
    (first : i.matter = .init) : i.after = requeueOrphans { i.reached with policy := none } := by
  simp only [after_eq, failed, if_pos first]

theorem after_policy (active : i.before.policy = some i.policy) :
    i.after.policy = none ↔ i.failure ≠ none := by
  have retains := i.reached_retains
  cases failed : i.failure with
  | none =>
    rw [after_fine failed, retains.policy, active]
    simp
  | some reason =>
    refine iff_of_true ?_ (by simp)
    by_cases first : i.matter = .init
    · rw [after_refused failed first]
      exact (requeueOrphans_retains { i.reached with policy := none }).policy
    · rw [after_failed failed first]
      exact abort_policy _ _

end Inquiry

end LoadableSched.SchedClass
