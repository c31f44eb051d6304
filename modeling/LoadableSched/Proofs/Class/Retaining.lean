import LoadableSched.Class.Lifecycle
import LoadableSched.Proofs.Class.Migration

/-!
What callbacks, placements and the migration of tasks leave alone: they move tasks between queues and
write the memory of the policy, and nothing else.
-/

namespace LoadableSched.SchedClass

variable {ω α : Type} {c d e : SchedClass ω}

/-- From `c` to `d` only queues, tasks and the memory may have changed. -/
def Retains (c d : SchedClass ω) : Prop :=
  d = { c with queues := d.queues, tasks := d.tasks, memory := d.memory }

namespace Retains

theorem refl (c : SchedClass ω) : c.Retains c := rfl

theorem trans (first : c.Retains d) (later : d.Retains e) : c.Retains e := by
  unfold Retains at *
  rw [later, first]

theorem policy (h : c.Retains d) : d.policy = c.policy := by rw [h]

theorem exit (h : c.Retains d) : d.exit = c.exit := by rw [h]

theorem clock (h : c.Retains d) : d.clock = c.clock := by rw [h]

end Retains

theorem placeOne_retains {cpu : CpuId} {placed : List Pid} {p : Placement}
    (made : c.placeOne cpu placed p = .ok d) : c.Retains d := by
  obtain ⟨_, _, _, r, _, rfl⟩ := placeOne_inv made
  rfl

theorem place_retains (c : SchedClass ω) (cpu : CpuId) (placed : List Pid)
    (placements : List Placement) : c.Retains (c.place cpu placed placements).2 :=
  place_closure .refl .trans placeOne_retains c cpu placed placements

theorem call_retains (c : SchedClass ω) (cpu : CpuId) (body : Callback ω α) :
    c.Retains (c.call cpu body).2 := by
  unfold call
  dsimp only
  split <;> rfl

theorem callAndPlace_retains (c : SchedClass ω) (cpu : CpuId) (body : Callback ω α) :
    c.Retains (c.callAndPlace cpu body).2 := by
  have called := c.call_retains cpu body
  unfold callAndPlace
  split <;> rename_i outcome <;> rw [outcome] at called
  · exact called
  · exact called.trans (place_retains _ _ _ _)

theorem introduce_retains (c : SchedClass ω) (policy : Policy ω) :
    c.Retains (c.introduce policy).2 := by
  have called := c.call_retains 0 policy.init
  unfold introduce
  split <;> rename_i d outcome <;> rw [outcome] at called
  · exact called
  · rename_i placements
    split
    · exact called
    · have placed := d.place_retains 0 [] placements
      split <;> rename_i made <;> rw [made] at placed <;> exact called.trans placed

theorem chooseCpu_retains (c : SchedClass ω) (policy : Policy ω) (task : Task) (flags : UInt64) :
    c.Retains (c.chooseCpu policy task flags).2 := by
  have called := c.call_retains task.lastCpu (policy.selectCpu task task.lastCpu flags)
  unfold chooseCpu
  split <;> rename_i d outcome <;> rw [outcome] at called
  · exact called
  · rename_i cpu placements
    split
    · exact called
    · have placed := d.place_retains cpu [] placements
      split <;> rename_i made <;> rw [made] at placed <;> exact called.trans placed

theorem enqueueGlobal_retains {pid : Pid} (made : c.enqueueGlobal pid = .ok d) : c.Retains d := by
  obtain ⟨r, _, rfl⟩ := enqueueGlobal_inv made
  rfl

theorem enqueueAllGlobal_retains (c : SchedClass ω) (pids : List Pid) :
    c.Retains (c.enqueueAllGlobal pids) :=
  enqueueAllGlobal_closure .refl .trans enqueueGlobal_retains c pids

theorem requeueOrphans_retains (c : SchedClass ω) : c.Retains c.requeueOrphans :=
  Retains.trans (d := { c with queues := c.queues.destroyPolicyQueues.2 }) rfl
    (enqueueAllGlobal_retains _ _)

theorem abort_policy (c : SchedClass ω) (reason : ClassError) : (c.abort reason).policy = none := by
  unfold abort
  cases active : c.policy with
  | none => exact active
  | some policy => exact (requeueOrphans_retains { c with policy := none }).policy

theorem uninstall_policy (c : SchedClass ω) : c.uninstall.2.policy = none := by
  unfold uninstall
  split
  · assumption
  · exact (requeueOrphans_retains _).policy

end LoadableSched.SchedClass
