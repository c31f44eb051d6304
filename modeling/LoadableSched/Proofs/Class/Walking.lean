import LoadableSched.Proofs.Class.Consulting

/-!
The callbacks of an operation, in order, with what happens between them: there the class only keeps its own
house. The walk over the operations is made once, for whatever relation covers that.
-/

namespace LoadableSched.SchedClass

variable {ω : Type} {c d e : SchedClass ω}

/-- A relation that covers whatever the class does by itself between two callbacks. -/
structure Housekeeping (R : SchedClass ω → SchedClass ω → Prop) : Prop where
  refl : ∀ c, R c c
  trans : ∀ {c d e}, R c d → R d e → R c e
  setState : ∀ c pid state, R c (c.setState pid state)
  mapTask : ∀ c pid f, R c (c.mapTask pid f)
  occupy : ∀ c cpu pid, R c (c.occupy cpu pid)
  engage : ∀ c cpu pid, R c (c.engage cpu pid)
  vacate : ∀ c cpu pid, R c (c.vacate cpu pid)
  setIdle : ∀ c cpu idle, R c { c with queues := c.queues.setIdle cpu idle }
  register : ∀ c task, R c (c.register task)
  enqueueGlobal : ∀ {c d pid}, c.enqueueGlobal pid = .ok d → R c d
  takeNext : ∀ c cpu, R c (c.takeNext cpu).2
  removeTask : ∀ c pid, R c (c.removeTask pid).2

/-- From `c` to `d` these callbacks were made, each of the class that the one before left but for the
housekeeping between them. -/
inductive Chain (R : SchedClass ω → SchedClass ω → Prop) :
    SchedClass ω → List (Inquiry ω) → SchedClass ω → Prop where
  | still {c d : SchedClass ω} (kept : R c d) : Chain R c [] d
  | asks {c d : SchedClass ω} {i : Inquiry ω} {rest : List (Inquiry ω)} (kept : R c i.before)
      (active : i.before.policy = some i.policy) (later : i.matter ≠ .init)
      (chain : Chain R i.after rest d) : Chain R c (i :: rest) d

variable {R : SchedClass ω → SchedClass ω → Prop}

namespace Chain

variable {xs ys : List (Inquiry ω)} (keeping : Housekeeping R)

include keeping

theorem refl (c : SchedClass ω) : Chain R c [] c := .still (keeping.refl c)

theorem after (kept : R c d) (chain : Chain R d xs e) : Chain R c xs e := by
  cases chain with
  | still kept' => exact .still (keeping.trans kept kept')
  | asks kept' active later chain => exact .asks (keeping.trans kept kept') active later chain

theorem trans (first : Chain R c xs d) (later : Chain R d ys e) : Chain R c (xs ++ ys) e := by
  induction first with
  | still kept => exact later.after keeping kept
  | asks kept active kind _ ih => exact .asks kept active kind (ih later)

theorem one {i : Inquiry ω} (active : i.before.policy = some i.policy) (later : i.matter ≠ .init)
    (settled : i.after = d) : Chain R i.before [i] d :=
  .asks (keeping.refl _) active later (settled ▸ refl keeping _)

end Chain

/-! The callbacks, each with what the class does once it returned. -/

theorem after_enable (policy : Policy ω) (pid : Pid) (task : Task) :
    Inquiry.after ⟨c, policy, .enable pid task⟩ =
      match c.call task.lastCpu (policy.enable task) with
      | (.error e, c) => c.abort e
      | (.ok (task, _), c) => c.mapTask pid fun _ => task := by
  simp only [Inquiry.after, Inquiry.heed]
  generalize c.call _ _ = made
  obtain ⟨_ | _, d⟩ := made <;> rfl

theorem after_enqueue (policy : Policy ω) (pid : Pid) (task : Task) (cpu : CpuId) (flags : UInt64) :
    Inquiry.after ⟨c, policy, .enqueue pid task cpu flags⟩ =
      match c.callAndPlace cpu (policy.enqueue task flags) with
      | (.error e, c) => c.abort e
      | (.ok placed, c) => if placed.contains pid then c else c.abort (.notQueued pid) := by
  simp only [Inquiry.after, Inquiry.heed]
  generalize c.callAndPlace _ _ = made
  obtain ⟨_ | placed, d⟩ := made
  · rfl
  · dsimp only
    cases placed.contains pid <;> rfl

theorem after_selectCpu (policy : Policy ω) (task : Task) (flags : UInt64) :
    Inquiry.after ⟨c, policy, .selectCpu task flags⟩ =
      match c.chooseCpu policy task flags with
      | (.error e, c) => c.abort e
      | (.ok _, c) => c := by
  simp only [Inquiry.after, Inquiry.heed]
  generalize c.chooseCpu _ _ _ = made
  obtain ⟨_ | _, d⟩ := made <;> rfl

theorem after_consult (policy : Policy ω) {matter : Matter} {body : Callback ω Unit}
    {cpu : CpuId} (heeds : Inquiry.heed ⟨c, policy, matter⟩ =
      (failure? (c.callAndPlace cpu body).1, (c.callAndPlace cpu body).2))
    (later : matter ≠ .init) : Inquiry.after ⟨c, policy, matter⟩ = c.consult cpu body := by
  unfold Inquiry.after consult
  rw [heeds]
  generalize c.callAndPlace _ _ = made
  obtain ⟨_ | _, d⟩ := made
  · exact if_neg later
  · rfl

namespace Housekeeping

variable (keeping : Housekeeping R)

include keeping

theorem enable_chain (c : SchedClass ω) (pid : Pid) : Chain R c (c.enableInquiries pid) (c.enable pid) := by
  unfold enable enableWith enableInquiries
  cases active : c.policy with
  | none => exact .refl keeping c
  | some policy =>
    cases c.task? pid with
    | none => exact .refl keeping c
    | some task => exact .one keeping active (by simp) (after_enable policy pid task)

theorem enableAll_chain (c : SchedClass ω) (pids : List Pid) :
    Chain R c (c.enableAllInquiries pids) (pids.foldl enable c) := by
  induction pids generalizing c with
  | nil => exact .refl keeping c
  | cons pid rest ih => exact (keeping.enable_chain c pid).trans keeping (ih _)

theorem enqueueWith_chain {policy : Policy ω} (active : c.policy = some policy) (pid : Pid)
    (cpu : CpuId) (flags : UInt64) :
    Chain R c (c.enqueueWithInquiries policy pid cpu flags) (c.enqueueWith policy pid cpu flags) := by
  unfold enqueueWith enqueueWithInquiries
  cases c.task? pid with
  | none => exact .refl keeping c
  | some task => exact .one keeping active (by simp) (after_enqueue policy pid task cpu flags)

theorem refill_chain (c : SchedClass ω) (cpu : CpuId) : Chain R c (c.refillInquiries cpu) (c.refill cpu) := by
  unfold refill refillInquiries
  cases active : c.policy with
  | none => exact .refl keeping c
  | some policy =>
    dsimp only
    split
    · exact .refl keeping c
    · exact .one keeping active (by simp) (after_consult policy rfl (by simp))

theorem start_chain (c : SchedClass ω) (cpu : CpuId) (task : Task) :
    Chain R c (c.startInquiries cpu task) (c.start cpu task) := by
  unfold start startInquiries
  cases active : c.policy with
  | none => exact .refl keeping c
  | some policy => exact .one keeping active (by simp) (after_consult policy rfl (by simp))

theorem halt_chain (c : SchedClass ω) (cpu : CpuId) (task : Task) (runnable : Bool) :
    Chain R c (c.haltInquiries cpu task runnable) (c.halt cpu task runnable) := by
  unfold halt haltInquiries
  cases active : c.policy with
  | none => exact .refl keeping c
  | some policy => exact .one keeping active (by simp) (after_consult policy rfl (by simp))

/-! The operations. -/

theorem addTask_chain (c : SchedClass ω) (task : Task) :
    Chain R c (c.addTaskInquiries task) (c.addTask task).2 := by
  unfold addTask addTaskInquiries
  split
  · exact .refl keeping c
  · exact (keeping.enable_chain _ _).after keeping (keeping.register c task)

theorem wake_chain (c : SchedClass ω) (pid : Pid) (flags : UInt64) :
    Chain R c (c.wakeInquiries pid flags) (c.wake pid flags).2 := by
  unfold wake wakeInquiries
  cases c.tasks.get? pid with
  | none => exact .refl keeping c
  | some slot =>
    dsimp only
    split
    · exact .refl keeping c
    refine Chain.after keeping (keeping.setState c pid .queued) ?_
    generalize c.setState pid .queued = d
    cases active : d.policy with
    | none =>
      dsimp only
      split
      · exact .refl keeping d
      · rename_i made
        exact .still (keeping.enqueueGlobal made)
    | some policy =>
      have retains := d.chooseCpu_retains policy slot.task flags
      have chosen := after_selectCpu (c := d) policy slot.task flags
      dsimp only
      generalize d.chooseCpu policy slot.task flags = outcome at retains chosen ⊢
      obtain ⟨_ | ⟨cpu, placed⟩, e⟩ := outcome
      · exact .one keeping active (by simp) chosen
      · have named := keeping.mapTask e pid fun task => { task with lastCpu := cpu }
        have still : (e.mapTask pid fun task => { task with lastCpu := cpu }).policy = some policy :=
          retains.policy.trans active
        refine .asks (keeping.refl d) active (by simp) (chosen ▸ Chain.after keeping named ?_)
        dsimp only
        split
        · exact .refl keeping _
        · exact keeping.enqueueWith_chain still pid cpu 0

theorem enqueue_chain (c : SchedClass ω) (pid : Pid) (flags : UInt64) :
    Chain R c (c.enqueueInquiries pid flags) (c.enqueue pid flags).2 := by
  unfold enqueue enqueueInquiries
  cases c.tasks.get? pid with
  | none => exact .refl keeping c
  | some slot =>
    dsimp only
    split
    · exact .refl keeping c
    refine Chain.after keeping (keeping.setState c pid .queued) ?_
    generalize c.setState pid .queued = d
    cases active : d.policy with
    | none =>
      dsimp only
      split
      · exact .refl keeping d
      · rename_i made
        exact .still (keeping.enqueueGlobal made)
    | some policy => exact keeping.enqueueWith_chain active _ _ _

theorem run_chain (c : SchedClass ω) (cpu : CpuId) (pid : Pid) :
    Chain R c (c.runInquiries cpu pid) (c.run cpu pid).2 := by
  unfold run runInquiries
  refine Chain.after keeping (keeping.occupy c cpu pid) ?_
  dsimp only
  cases (c.occupy cpu pid).tasks.get? pid with
  | none => exact .refl keeping _
  | some slot => exact (keeping.start_chain _ cpu _).after keeping (keeping.engage _ cpu pid)

theorem pickNext_chain (c : SchedClass ω) (cpu : CpuId) :
    Chain R c (c.pickNextInquiries cpu) (c.pickNext cpu).2 := by
  unfold pickNext pickNextInquiries
  split
  · exact .refl keeping c
  cases c.current? cpu with
  | some pid => exact .refl keeping c
  | none =>
    have taken := keeping.takeNext (c.refill cpu) cpu
    refine (keeping.refill_chain c cpu).trans keeping ?_
    dsimp only
    generalize (c.refill cpu).takeNext cpu = outcome at taken ⊢
    obtain ⟨_ | _ | pid, d⟩ := outcome
    · exact .still taken
    · exact .still (keeping.trans taken (keeping.setIdle d cpu true))
    · exact (keeping.run_chain d cpu pid).after keeping taken

theorem settleStopped_chain (c : SchedClass ω) (cpu : CpuId) (pid : Pid) (runnable : Bool) :
    Chain R c (c.settleStoppedInquiries cpu pid runnable) (c.settleStopped cpu pid runnable).2 := by
  unfold settleStopped settleStoppedInquiries
  split
  · exact .refl keeping c
  split
  · exact .still (keeping.setState c pid .sleeping)
  refine Chain.after keeping (keeping.setState c pid .queued) ?_
  generalize c.setState pid .queued = d
  dsimp only
  cases active : d.policy with
  | none =>
    dsimp only
    split
    · exact .refl keeping d
    · rename_i made
      exact .still (keeping.enqueueGlobal made)
  | some policy => exact keeping.enqueueWith_chain active _ _ _

theorem stop_chain (c : SchedClass ω) (cpu : CpuId) (ran : Nanos) (runnable : Bool) :
    Chain R c (c.stopInquiries cpu ran runnable) (c.stop cpu ran runnable).2 := by
  unfold stop stopInquiries
  split
  · exact .refl keeping c
  cases c.current? cpu with
  | none => exact .refl keeping c
  | some pid =>
    dsimp only
    refine Chain.after keeping (keeping.vacate c cpu pid) ?_
    generalize c.vacate cpu pid = d
    cases d.tasks.get? pid with
    | none => exact .refl keeping d
    | some slot =>
      refine Chain.after keeping (keeping.mapTask d pid fun _ => slot.task.charge ran) ?_
      exact (keeping.halt_chain _ cpu _ runnable).trans keeping (keeping.settleStopped_chain _ cpu pid runnable)

theorem step_chain (c : SchedClass ω) {op : Operation ω} (spares : op.SparesPolicy)
    (clock : ∀ delta, op = .advanceClock delta → R c (c.step op))
    (memory : ∀ m, op = .setMemory m → R c (c.step op)) : Chain R c (c.inquiries op) (c.step op) := by
  cases op with
  | install policy => exact spares.elim
  | uninstall => exact spares.elim
  | addTask task => exact keeping.addTask_chain c task
  | removeTask pid => exact .still (keeping.removeTask c pid)
  | wake pid flags => exact keeping.wake_chain c pid flags
  | enqueue pid flags => exact keeping.enqueue_chain c pid flags
  | pickNext cpu => exact keeping.pickNext_chain c cpu
  | stop cpu ran runnable => exact keeping.stop_chain c cpu ran runnable
  | advanceClock delta => exact .still (clock delta rfl)
  | setMemory m => exact .still (memory m rfl)

theorem install_chain (free : c.policy = none) (policy : Policy ω) :
    ∃ rest d, c.inquiries (.install policy) = ⟨{ c with policy := some policy }, policy, .init⟩ :: rest ∧
      Chain R (Inquiry.after ⟨{ c with policy := some policy }, policy, .init⟩) rest d ∧
      (c.step (.install policy) = d ∨ c.step (.install policy) = { d with exit := none }) := by
  simp only [inquiries, installInquiries, step, install, Inquiry.after, Inquiry.heed, free]
  generalize introduce _ policy = made
  obtain ⟨e | _, d⟩ := made
  · exact ⟨[], _, rfl, .refl keeping _, .inl rfl⟩
  · exact ⟨_, _, rfl, keeping.enableAll_chain d d.tasks.keys, .inr rfl⟩

end Housekeeping

end LoadableSched.SchedClass
