import LoadableSched.Proofs.Class.Standing
import LoadableSched.Proofs.Class.Walking

/-!
The clock and the memory of the class. The clock is moved from outside only, and the memory is written by
callbacks and from outside only. So whatever these keep of it holds all along a run.
-/

namespace LoadableSched.SchedClass

variable {ω : Type} {c d e : SchedClass ω} {Q : ω → Prop}

/-- From `c` to `d` no time passed, and nothing was noted or forgotten. -/
structure Lasts (c d : SchedClass ω) : Prop where
  clock : d.clock = c.clock
  memory : d.memory = c.memory

namespace Lasts

theorem refl (c : SchedClass ω) : c.Lasts c := ⟨rfl, rfl⟩

theorem trans (first : c.Lasts d) (later : d.Lasts e) : c.Lasts e :=
  ⟨later.clock.trans first.clock, later.memory.trans first.memory⟩

theorem place (c : SchedClass ω) (cpu : CpuId) (placed : List Pid) (placements : List Placement) :
    c.Lasts (c.place cpu placed placements).2 := by
  apply place_closure refl trans
  intro c d _ _ _ made
  obtain ⟨_, _, _, r, _, rfl⟩ := placeOne_inv made
  exact ⟨rfl, rfl⟩

theorem enqueueGlobal {pid : Pid} (made : c.enqueueGlobal pid = .ok d) : c.Lasts d := by
  obtain ⟨r, _, rfl⟩ := enqueueGlobal_inv made
  exact ⟨rfl, rfl⟩

theorem requeueOrphans (c : SchedClass ω) : c.Lasts c.requeueOrphans := by
  have orphaned : c.Lasts c.orphaned := ⟨rfl, rfl⟩
  exact orphaned.trans (enqueueAllGlobal_closure refl trans enqueueGlobal _ _)

theorem unseat (c : SchedClass ω) : c.Lasts (SchedClass.requeueOrphans { c with policy := none }) := by
  have unseated : c.Lasts { c with policy := none } := ⟨rfl, rfl⟩
  exact unseated.trans (requeueOrphans _)

theorem abort (c : SchedClass ω) (reason : ClassError) : c.Lasts (c.abort reason) := by
  unfold SchedClass.abort
  split
  · exact refl c
  · exact (unseat c).trans ⟨rfl, rfl⟩

theorem takeNext (c : SchedClass ω) (cpu : CpuId) : c.Lasts (c.takeNext cpu).2 := by
  unfold SchedClass.takeNext
  split
  · exact ⟨rfl, rfl⟩
  · split <;> exact ⟨rfl, rfl⟩

theorem removeTask (c : SchedClass ω) (pid : Pid) : c.Lasts (c.removeTask pid).2 := by
  unfold SchedClass.removeTask
  split
  · exact refl c
  · dsimp only
    split <;> exact ⟨rfl, rfl⟩

theorem housekeeping : Housekeeping (Lasts (ω := ω)) where
  refl := refl
  trans := trans
  setState _ _ _ := ⟨rfl, rfl⟩
  mapTask _ _ _ := ⟨rfl, rfl⟩
  occupy _ _ _ := ⟨rfl, rfl⟩
  engage _ _ _ := ⟨rfl, rfl⟩
  vacate _ _ _ := ⟨rfl, rfl⟩
  setIdle _ _ _ := ⟨rfl, rfl⟩
  register _ _ := ⟨rfl, rfl⟩
  enqueueGlobal := enqueueGlobal
  takeNext := takeNext
  removeTask := removeTask

end Lasts

theorem Inquiry.called_lasts (i : Inquiry ω) : i.called.Lasts i.after := by
  have reached : i.called.Lasts i.reached := by
    unfold Inquiry.reached
    cases i.heeded with
    | flawed reason first heeds => exact heeds ▸ .refl _
    | placed proper accepted other heeds => exact heeds ▸ .place _ _ _ _
    | enabled proper accepted enables pid record heeds => exact heeds ▸ ⟨rfl, rfl⟩
  rw [Inquiry.after_eq]
  split
  · exact reached
  · split
    · exact reached.trans (.unseat _)
    · exact reached.trans (.abort _ _)

theorem Chain.lasts {is : List (Inquiry ω)} (chain : Chain Lasts c is d)
    (callbacks : ∀ i ∈ is, Q i.before.memory → Q i.called.memory) (holds : Q c.memory) :
    d.clock = c.clock ∧ Q d.memory ∧ ∀ i ∈ is, Q i.before.memory := by
  induction chain with
  | still kept => exact ⟨kept.clock, kept.memory ▸ holds, fun _ member => absurd member List.not_mem_nil⟩
  | @asks c d i rest kept active later chain ih =>
    obtain ⟨first, callbacks⟩ := List.forall_mem_cons.mp callbacks
    have before : Q i.before.memory := kept.memory ▸ holds
    obtain ⟨clock, after, all⟩ := ih callbacks (i.called_lasts.memory ▸ first before)
    exact ⟨clock.trans (i.called_lasts.clock.trans kept.clock), after, List.forall_mem_cons.mpr ⟨before, all⟩⟩

theorem step_lasts {op : Operation ω} (callbacks : ∀ i ∈ c.inquiries op, Q i.before.memory → Q i.called.memory)
    (holds : Q c.memory) :
    ((∀ delta, op ≠ .advanceClock delta) → (c.step op).clock = c.clock) ∧
      ((∀ m, op ≠ .setMemory m) → Q (c.step op).memory) ∧ ∀ i ∈ c.inquiries op, Q i.before.memory := by
  have inside : op.SparesPolicy → (∀ delta, op ≠ .advanceClock delta) → (∀ m, op ≠ .setMemory m) →
      (c.step op).clock = c.clock ∧ Q (c.step op).memory ∧ ∀ i ∈ c.inquiries op, Q i.before.memory :=
    fun spares unmoved untouched => (Lasts.housekeeping.step_chain c spares
      (fun delta same => absurd same (unmoved delta)) fun m same => absurd same (untouched m)).lasts
      callbacks holds
  cases op with
  | install policy =>
    cases free : c.policy with
    | some active =>
      have same : c.step (.install policy) = c := congrArg Prod.snd (install_busy free)
      have nothing : c.inquiries (.install policy) = [] := by simp [inquiries, installInquiries, free]
      rw [same, nothing]
      exact ⟨fun _ => rfl, fun _ => holds, fun _ member => absurd member List.not_mem_nil⟩
    | none =>
      obtain ⟨rest, d, split, chain, ends⟩ := Lasts.housekeeping.install_chain free policy
      rw [split] at callbacks ⊢
      obtain ⟨first, callbacks⟩ := List.forall_mem_cons.mp callbacks
      have lasts := Inquiry.called_lasts ⟨{ c with policy := some policy }, policy, .init⟩
      obtain ⟨clock, memory, all⟩ := chain.lasts callbacks (lasts.memory ▸ first holds)
      have clock : d.clock = c.clock := clock.trans lasts.clock
      refine ⟨fun _ => ?_, fun _ => ?_, List.forall_mem_cons.mpr ⟨holds, all⟩⟩ <;>
        rcases ends with same | same <;> rw [same] <;> assumption
  | uninstall =>
    have lasts : c.Lasts (c.step .uninstall) := by
      simp only [step, uninstall]
      split
      · exact .refl c
      · exact .unseat c
    exact ⟨fun _ => lasts.clock, fun _ => lasts.memory ▸ holds, fun _ member => absurd member List.not_mem_nil⟩
  | advanceClock delta =>
    exact ⟨fun unmoved => absurd rfl (unmoved delta), fun _ => holds,
      fun _ member => absurd member List.not_mem_nil⟩
  | setMemory m =>
    exact ⟨fun _ => rfl, fun untouched => absurd rfl (untouched m),
      fun _ member => absurd member List.not_mem_nil⟩
  | addTask | removeTask | wake | enqueue | pickNext | stop =>
    obtain ⟨clock, memory, all⟩ := inside trivial (fun _ same => by cases same) fun _ same => by cases same
    exact ⟨fun _ => clock, fun _ => memory, all⟩

theorem step_clock (c : SchedClass ω) {op : Operation ω} (unmoved : ∀ delta, op ≠ .advanceClock delta) :
    (c.step op).clock = c.clock :=
  (step_lasts (Q := fun _ => True) (fun _ _ => id) trivial).1 unmoved

theorem steps_clock (c : SchedClass ω) {ops : List (Operation ω)}
    (unmoved : ∀ op ∈ ops, ∀ delta, op ≠ .advanceClock delta) : (c.steps ops).clock = c.clock := by
  induction ops generalizing c with
  | nil => rfl
  | cons op rest ih =>
    exact (ih (c.step op) fun op member => unmoved op (List.mem_cons_of_mem _ member)).trans
      (c.step_clock (unmoved op List.mem_cons_self))

/-- What all callbacks keep of the memory, and all who replace it, holds all along. -/
theorem steps_last {ops : List (Operation ω)}
    (callbacks : ∀ i ∈ c.allInquiries ops, Q i.before.memory → Q i.called.memory)
    (outside : ∀ early m, early ++ [.setMemory m] <+: ops → Q (c.steps early).memory → Q m)
    (holds : Q c.memory) : Q (c.steps ops).memory ∧ ∀ i ∈ c.allInquiries ops, Q i.before.memory := by
  induction ops generalizing c with
  | nil => exact ⟨holds, fun _ member => absurd member List.not_mem_nil⟩
  | cons op rest ih =>
    obtain ⟨first, callbacks⟩ := List.forall_mem_append.mp callbacks
    obtain ⟨_, memory, all⟩ := step_lasts first holds
    have next : Q (c.step op).memory := by
      cases op with
      | setMemory m => exact outside [] m (List.prefix_append _ _) holds
      | _ => exact memory nofun
    have outside : ∀ early m, early ++ [.setMemory m] <+: rest → Q ((c.step op).steps early).memory → Q m :=
      fun early m within => outside (op :: early) m ((List.prefix_cons_inj op).mpr within)
    obtain ⟨last, later⟩ := ih callbacks outside next
    exact ⟨last, List.forall_mem_append.mpr ⟨all, later⟩⟩

end LoadableSched.SchedClass
