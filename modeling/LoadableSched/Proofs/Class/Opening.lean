import LoadableSched.Proofs.Class.Contract
import LoadableSched.Proofs.Class.Episodes

/-!
Runs in which a policy is installed before any task is registered, whatever policies came and went before.
-/

namespace LoadableSched.SchedClass

variable {ω : Type} {c : SchedClass ω} {policy : Policy ω} {own : List QueueId} {b : Bookkeeping ω}

/-- The policy is in place, nobody is registered yet, and no memory but this was left. -/
structure Opened (policy : Policy ω) (memory : ω) (c : SchedClass ω) : Prop where
  steady : c.Steady
  active : c.policy = some policy
  memory : c.memory = memory
  empty : ∀ pid, c.tasks.get? pid = none

theorem Deserted.steady (deserted : c.Deserted) (exit : c.exit = none) (positive : 0 < c.cpus)
    (stocked : c.Stocked) : c.Steady where
  agrees := deserted.agrees
  backed := deserted.backed
  healthy :=
    { held := fun cpu _ here => absurd ((deserted.current cpu).symm.trans here) nofun
      exit
      recorded := fun pid _ found => absurd ((deserted.unknown pid).symm.trans found) nofun
      positive
      stocked }

theorem Deserted.install_eq (deserted : c.Deserted) (free : c.policy = none)
    (code : (c.invoke 0 policy.init).1 = 0) (asks : (c.invoke 0 policy.init).2.Asks []) :
    c.install policy = (.ok (),
      { SchedClass.resume { c with policy := some policy } (c.invoke 0 policy.init).2 with exit := none }) := by
  let entered : SchedClass ω := { c with policy := some policy }
  have introduced := introduce_accepted (c := entered) code asks
  have nobody : c.tasks.keys = [] := by
    refine List.eq_nil_iff_forall_not_mem.mpr fun pid member => ?_
    have known := (c.tasks.contains_iff_mem_keys pid).mpr member
    rw [deserted.tasks pid] at known
    cases known
  have keys : (entered.resume (entered.invoke 0 policy.init).2).tasks.keys = [] := nobody
  unfold install
  simp only [free]
  rw [introduced]
  simp only [keys, List.foldl_nil]
  rfl

theorem Deserted.opens (deserted : c.Deserted) (vacant : c.Vacant) (positive : 0 < c.cpus)
    (conforms : policy.Conforms own) (records : policy.Records b)
    (installed : (c.install policy).1 = .ok ()) : (c.step (.install policy)).Opened policy c.memory := by
  have free := ((c.install_ok_iff policy).mp installed).1
  obtain ⟨code, asks, stocks⟩ := conforms.init c.clock c.queues c.memory (vacant free)
  have result : c.step (.install policy) = _ := congrArg Prod.snd (deserted.install_eq free code asks)
  have after : (c.step (.install policy)).Deserted := deserted.step nofun
  have cpus : (c.step (.install policy)).cpus = c.cpus :=
    (step_carries deserted.agrees deserted.backed (.install policy)).cpus
  have active : (c.step (.install policy)).policy = some policy := by
    rw [result]
    rfl
  have stocked : (c.step (.install policy)).Stocked := by
    refine ⟨fun gone => ?_, fun other there => ?_⟩
    · cases active.symm.trans gone
    · cases active.symm.trans there
      refine ⟨own, conforms, ?_⟩
      rw [result]
      exact stocks
  refine ⟨after.steady (by rw [result]) (by rwa [cpus]) stocked, active, ?_, after.unknown⟩
  rw [result]
  exact records.init c.clock ⟨c.queues, [], none, c.memory⟩

theorem opened (cpus : Nat) (memory : ω) {before : List (Operation ω)}
    (early : ∀ op ∈ before, ∀ task, op ≠ .addTask task) (conforms : policy.Conforms own)
    (records : policy.Records b) (installed : (((new cpus memory).steps before).install policy).1 = .ok ()) :
    ((new cpus memory).steps (before ++ [.install policy])).Opened policy
      ((new cpus memory).steps before).memory := by
  have deserted := (Deserted.new cpus memory).steps early
  have vacant := steps_vacant (new_vacant cpus memory) before
  have steady := Steady.new cpus memory
  rw [steps_append]
  refine deserted.opens vacant ?_ conforms records installed
  rw [steps_cpus steady.agrees steady.backed]
  exact steady.healthy.positive

end LoadableSched.SchedClass
