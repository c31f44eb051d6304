import LoadableSched.Proofs.Class.Walking

/-!
The tables of the class stay in order all along, and between two callbacks nothing happens to the policy and
its queues. So a policy stays unless a callback gives a reason to remove it, and the first reason of all is
the one that is kept.
-/

namespace LoadableSched.SchedClass

variable {ω : Type} {c d e : SchedClass ω}

structure Tidy (c : SchedClass ω) : Prop where
  queues : c.queues.WellFormed
  tasks : c.tasks.Ordered

namespace Tidy

theorem call (tidy : c.Tidy) {α : Type} (cpu : CpuId) (body : Callback ω α) :
    (c.resume (c.invoke cpu body).2).Tidy where
  queues := (Callback.run_shifts cpu c.clock body (p := ⟨c.queues, [], none, c.memory⟩) tidy.queues).wellFormed
  tasks := tidy.tasks

theorem place (tidy : c.Tidy) (cpu : CpuId) (placed : List Pid) (placements : List Placement) :
    (c.place cpu placed placements).2.Tidy := by
  apply place_closure (R := fun c d => c.Tidy → d.Tidy) _ _ _ c cpu placed placements tidy
  · exact fun _ => id
  · exact fun first later tidy => later (first tidy)
  · intro c d _ _ _ made tidy
    obtain ⟨_, _, _, r, pushed, rfl⟩ := placeOne_inv made
    exact ⟨(Queues.push_shifts tidy.queues pushed).wellFormed, tidy.tasks.modify _ _⟩

theorem enqueueGlobal {pid : Pid} (tidy : c.Tidy) (made : c.enqueueGlobal pid = .ok d) : d.Tidy := by
  obtain ⟨r, pushed, rfl⟩ := enqueueGlobal_inv made
  exact ⟨(Queues.push_shifts tidy.queues pushed).wellFormed, tidy.tasks.modify _ _⟩

theorem enqueueAllGlobal (tidy : c.Tidy) (pids : List Pid) : (c.enqueueAllGlobal pids).Tidy := by
  apply enqueueAllGlobal_closure (R := fun c d => c.Tidy → d.Tidy) _ _ _ c pids tidy
  · exact fun _ => id
  · exact fun first later tidy => later (first tidy)
  · exact fun made tidy => tidy.enqueueGlobal made

theorem requeueOrphans (tidy : c.Tidy) : c.requeueOrphans.Tidy :=
  enqueueAllGlobal (c := c.orphaned)
    ⟨(Queues.destroyPolicyQueues_shifts tidy.queues).wellFormed, tidy.tasks⟩ _

theorem reached {i : Inquiry ω} (tidy : i.before.Tidy) : i.reached.Tidy := by
  have called : i.called.Tidy := tidy.call _ _
  unfold Inquiry.reached
  cases i.heeded with
  | flawed reason first heeds => exact heeds ▸ called
  | placed proper accepted other heeds => exact heeds ▸ called.place _ _ _
  | enabled proper accepted enables pid record heeds =>
    exact heeds ▸ ⟨called.queues, called.tasks.modify _ _⟩

theorem after {i : Inquiry ω} (tidy : i.before.Tidy) : i.after.Tidy := by
  have reached : i.heed.2.Tidy := tidy.reached
  have freed : ({ i.heed.2 with policy := none } : SchedClass ω).requeueOrphans.Tidy :=
    Tidy.requeueOrphans ⟨reached.queues, reached.tasks⟩
  unfold Inquiry.after
  split
  · rename_i heeded
    rwa [heeded] at reached
  · rename_i heeded
    rw [heeded] at reached freed
    split
    · exact freed
    · unfold abort
      split
      · exact reached
      · exact ⟨freed.queues, freed.tasks⟩

end Tidy

structure Tends (c d : SchedClass ω) : Prop where
  policy : d.policy = c.policy
  exit : d.exit = c.exit
  numbers : c.queues.SameNumbers d.queues
  tidy : c.Tidy → d.Tidy

namespace Tends

theorem refl (c : SchedClass ω) : c.Tends c := ⟨rfl, rfl, .refl _, id⟩

theorem trans (first : c.Tends d) (later : d.Tends e) : c.Tends e where
  policy := later.policy.trans first.policy
  exit := later.exit.trans first.exit
  numbers := first.numbers.trans later.numbers
  tidy tidy := later.tidy (first.tidy tidy)

theorem setState (c : SchedClass ω) (pid : Pid) (state : RunState) : c.Tends (c.setState pid state) where
  policy := rfl
  exit := rfl
  numbers _ := rfl
  tidy tidy := ⟨tidy.queues, tidy.tasks.modify _ _⟩

theorem mapTask (c : SchedClass ω) (pid : Pid) (f : Task → Task) : c.Tends (c.mapTask pid f) where
  policy := rfl
  exit := rfl
  numbers _ := rfl
  tidy tidy := ⟨tidy.queues, tidy.tasks.modify _ _⟩

theorem occupy (c : SchedClass ω) (cpu : CpuId) (pid : Pid) : c.Tends (c.occupy cpu pid) where
  policy := rfl
  exit := rfl
  numbers _ := rfl
  tidy tidy := ⟨(Queues.setIdle_shifts tidy.queues cpu false).wellFormed, tidy.tasks⟩

theorem engage (c : SchedClass ω) (cpu : CpuId) (pid : Pid) : c.Tends (c.engage cpu pid) where
  policy := rfl
  exit := rfl
  numbers _ := rfl
  tidy tidy := ⟨tidy.queues, tidy.tasks.modify _ _⟩

theorem vacate (c : SchedClass ω) (cpu : CpuId) (pid : Pid) : c.Tends (c.vacate cpu pid) where
  policy := rfl
  exit := rfl
  numbers _ := rfl
  tidy tidy := ⟨(Queues.setIdle_shifts tidy.queues cpu true).wellFormed, tidy.tasks⟩

theorem setIdle (c : SchedClass ω) (cpu : CpuId) (idle : Bool) :
    c.Tends { c with queues := c.queues.setIdle cpu idle } where
  policy := rfl
  exit := rfl
  numbers _ := rfl
  tidy tidy := ⟨(Queues.setIdle_shifts tidy.queues cpu idle).wellFormed, tidy.tasks⟩

theorem register (c : SchedClass ω) (task : Task) : c.Tends (c.register task) where
  policy := rfl
  exit := rfl
  numbers _ := rfl
  tidy tidy := ⟨tidy.queues, tidy.tasks.insert _ _⟩

theorem enqueueGlobal {pid : Pid} (made : c.enqueueGlobal pid = .ok d) : c.Tends d := by
  have retains := enqueueGlobal_retains made
  exact ⟨retains.policy, retains.exit, enqueueGlobal_sameNumbers made, fun tidy => tidy.enqueueGlobal made⟩

theorem takeNext (c : SchedClass ω) (cpu : CpuId) : c.Tends (c.takeNext cpu).2 := by
  unfold SchedClass.takeNext
  split
  · rename_i popped
    obtain ⟨_, rfl⟩ := Prod.mk.inj popped
    refine ⟨rfl, rfl, fun _ => rfl, fun tidy => ⟨?_, tidy.tasks⟩⟩
    have moved := (Queues.popLocal_shifts tidy.queues cpu).wellFormed
    rwa [popped] at moved
  · split
    · exact refl c
    · rename_i popped
      exact ⟨rfl, rfl, Queues.pop_sameNumbers popped, fun tidy =>
        ⟨(Queues.pop_shifts tidy.queues popped).wellFormed, tidy.tasks⟩⟩

theorem removeTask (c : SchedClass ω) (pid : Pid) : c.Tends (c.removeTask pid).2 := by
  unfold SchedClass.removeTask
  split
  · exact refl c
  · dsimp only
    split
    · exact ⟨rfl, rfl, fun _ => rfl, fun tidy => ⟨tidy.queues, tidy.tasks.erase _⟩⟩
    · exact ⟨rfl, rfl, Queues.remove_sameNumbers pid, fun tidy =>
        ⟨(Queues.remove_shifts tidy.queues pid).wellFormed, tidy.tasks.erase _⟩⟩
    · rename_i cpu _
      exact ⟨rfl, rfl, fun _ => rfl, fun tidy =>
        ⟨(Queues.setIdle_shifts tidy.queues cpu true).wellFormed, tidy.tasks.erase _⟩⟩

theorem housekeeping : Housekeeping (Tends (ω := ω)) where
  refl := refl
  trans := trans
  setState := setState
  mapTask := mapTask
  occupy := occupy
  engage := engage
  vacate := vacate
  setIdle := setIdle
  register := register
  enqueueGlobal := enqueueGlobal
  takeNext := takeNext
  removeTask := removeTask

end Tends

/-- From `c` to `d` these callbacks were made, each of the class that the one before left. -/
inductive Leads : SchedClass ω → List (Inquiry ω) → SchedClass ω → Prop where
  | still {c d : SchedClass ω} (tends : c.Tends d) : Leads c [] d
  | asks {c d : SchedClass ω} {i : Inquiry ω} {rest : List (Inquiry ω)} (tends : c.Tends i.before)
      (active : i.before.policy = some i.policy) (later : i.matter ≠ .init)
      (leads : Leads i.after rest d) : Leads c (i :: rest) d

theorem Chain.leads {is : List (Inquiry ω)} (chain : Chain Tends c is d) : c.Leads is d := by
  induction chain with
  | still tends => exact .still tends
  | asks tends active later _ ih => exact .asks tends active later ih

theorem enable_leads (c : SchedClass ω) (pid : Pid) : c.Leads (c.enableInquiries pid) (c.enable pid) :=
  (Tends.housekeeping.enable_chain c pid).leads

theorem enableAll_leads (c : SchedClass ω) (pids : List Pid) :
    c.Leads (c.enableAllInquiries pids) (pids.foldl enable c) := (Tends.housekeeping.enableAll_chain c pids).leads

theorem refill_leads (c : SchedClass ω) (cpu : CpuId) : c.Leads (c.refillInquiries cpu) (c.refill cpu) :=
  (Tends.housekeeping.refill_chain c cpu).leads

theorem halt_leads (c : SchedClass ω) (cpu : CpuId) (task : Task) (runnable : Bool) :
    c.Leads (c.haltInquiries cpu task runnable) (c.halt cpu task runnable) :=
  (Tends.housekeeping.halt_chain c cpu task runnable).leads

theorem run_leads (c : SchedClass ω) (cpu : CpuId) (pid : Pid) :
    c.Leads (c.runInquiries cpu pid) (c.run cpu pid).2 := (Tends.housekeeping.run_chain c cpu pid).leads

theorem settleStopped_leads (c : SchedClass ω) (cpu : CpuId) (pid : Pid) (runnable : Bool) :
    c.Leads (c.settleStoppedInquiries cpu pid runnable) (c.settleStopped cpu pid runnable).2 :=
  (Tends.housekeeping.settleStopped_chain c cpu pid runnable).leads

theorem step_leads (c : SchedClass ω) {op : Operation ω} (spares : op.SparesPolicy) :
    c.Leads (c.inquiries op) (c.step op) := by
  refine (Tends.housekeeping.step_chain c spares ?_ ?_).leads
  · rintro delta rfl
    exact ⟨rfl, rfl, fun _ => rfl, fun tidy => ⟨tidy.queues, tidy.tasks⟩⟩
  · rintro m rfl
    exact ⟨rfl, rfl, fun _ => rfl, fun tidy => ⟨tidy.queues, tidy.tasks⟩⟩

theorem install_leads (free : c.policy = none) (policy : Policy ω) :
    ∃ rest d, c.inquiries (.install policy) = ⟨{ c with policy := some policy }, policy, .init⟩ :: rest ∧
      (Inquiry.after ⟨{ c with policy := some policy }, policy, .init⟩).Leads rest d ∧
      (c.step (.install policy) = d ∨ c.step (.install policy) = { d with exit := none }) := by
  obtain ⟨rest, d, made, chain, ends⟩ := Tends.housekeeping.install_chain free policy
  exact ⟨rest, d, made, chain.leads, ends⟩

theorem Leads.mem {is : List (Inquiry ω)} (leads : c.Leads is d) :
    ∀ i ∈ is, i.before.policy = some i.policy ∧ (c.Tidy → i.before.Tidy) := by
  induction leads with
  | still tends => exact fun _ member => absurd member List.not_mem_nil
  | @asks c d i rest tends active later leads ih =>
    refine List.forall_mem_cons.mpr ⟨⟨active, tends.tidy⟩, fun j member => ?_⟩
    exact ⟨(ih j member).1, fun tidy => (ih j member).2 (tends.tidy tidy).after⟩

theorem mem_inquiries {op : Operation ω} {i : Inquiry ω} (asked : i ∈ c.inquiries op) :
    i.before.policy = some i.policy ∧ (c.Tidy → i.before.Tidy) := by
  by_cases spares : op.SparesPolicy
  · exact (step_leads c spares).mem i asked
  cases op with
  | install policy =>
    cases busy : c.policy with
    | some active => simp [inquiries, installInquiries, busy] at asked
    | none =>
      obtain ⟨rest, d, split, leads, _⟩ := install_leads busy policy
      rw [split] at asked
      rcases List.mem_cons.mp asked with rfl | later
      · exact ⟨rfl, fun tidy => ⟨tidy.queues, tidy.tasks⟩⟩
      · refine ⟨(leads.mem i later).1, fun tidy => (leads.mem i later).2 ?_⟩
        exact Tidy.after ⟨tidy.queues, tidy.tasks⟩
  | uninstall => exact absurd asked List.not_mem_nil
  | addTask | removeTask | wake | enqueue | pickNext | stop | advanceClock | setMemory =>
    exact absurd trivial spares

/-! What the reasons of the callbacks come to. -/

/-- From `c` to `d` the first of these reasons cost the policy its place, if there is one. -/
def Judged (c : SchedClass ω) (policy : Policy ω) (reasons : List ClassError) (d : SchedClass ω) : Prop :=
  match reasons.head? with
  | none => d.policy = some policy ∧ d.exit = c.exit
  | some reason => d.policy = none ∧ d.exit = some ⟨policy.name, reason⟩

theorem abort_exit {policy : Policy ω} (active : c.policy = some policy) (reason : ClassError) :
    (c.abort reason).exit = some ⟨policy.name, reason⟩ := by
  simp only [abort, active]

namespace Leads

variable {is : List (Inquiry ω)}

theorem none_left (leads : c.Leads is d) (gone : c.policy = none) : is = [] ∧ c.Tends d := by
  cases leads with
  | still tends => exact ⟨rfl, tends⟩
  | asks tends active =>
    rw [tends.policy, gone] at active
    cases active

theorem judged {policy : Policy ω} (leads : c.Leads is d) (active : c.policy = some policy) :
    c.Judged policy (is.flatMap Inquiry.reasons) d := by
  induction leads with
  | still tends => exact ⟨tends.policy.trans active, tends.exit⟩
  | @asks c d i rest tends there later leads ih =>
    have same : i.policy = policy := Option.some.inj (there.symm.trans (tends.policy.trans active))
    have retains := i.reached_retains
    have first := i.failure_eq
    unfold Judged
    rw [List.flatMap_cons, List.head?_append, ← first]
    cases failed : i.failure with
    | some reason =>
      have after := i.after_failed failed later
      have gone : i.after.policy = none := after ▸ abort_policy _ _
      have kept : i.after.exit = some ⟨policy.name, reason⟩ := by
        rw [after, abort_exit (retains.policy.trans there), same]
      obtain ⟨_, still⟩ := leads.none_left gone
      exact ⟨still.policy.trans gone, still.exit.trans kept⟩
    | none =>
      have after := i.after_fine failed
      have judged := ih (after ▸ retains.policy.trans (same ▸ there))
      rw [Option.none_or]
      unfold Judged at judged
      cases reasons : (rest.flatMap Inquiry.reasons).head? with
      | some reason =>
        rw [reasons] at judged
        exact judged
      | none =>
        rw [reasons] at judged
        exact ⟨judged.1, judged.2.trans (after ▸ retains.exit.trans tends.exit)⟩

end Leads

/-- A policy is removed exactly if a callback gives a reason to, and the first reason is kept with its name.
Only taking the policy away on request is another matter. -/
theorem removed_for_first_reason (c : SchedClass ω) {policy : Policy ω}
    (active : c.policy = some policy) {op : Operation ω} (kept : op ≠ .uninstall) :
    c.Leads (c.inquiries op) (c.step op) ∧
      c.Judged policy ((c.inquiries op).flatMap Inquiry.reasons) (c.step op) := by
  have leads : c.Leads (c.inquiries op) (c.step op) := by
    cases op with
    | install other =>
      simp only [inquiries, installInquiries, step, install, active]
      exact .still (.refl c)
    | uninstall => exact absurd rfl kept
    | addTask | removeTask | wake | enqueue | pickNext | stop | advanceClock | setMemory =>
      exact step_leads c trivial
  exact ⟨leads, leads.judged active⟩

/-- A policy that sends tasks to a processor that does not exist, and chooses the first one when it is
asked. It places another task than the one that it is to place. -/
def wanderer : Policy Unit where
  name := "wanderer"
  init := .done 0
  selectCpu _ _ _ := do
    .place 2 localQueue 1000
    return 0
  enqueue _ _ := .done ()
  dispatch _ _ := .done ()
  enable task := .done { task with lastCpu := 99 }

theorem wanderer_removed :
    let c := (new 1 ()).steps [.install wanderer, .addTask { pid := 1 }, .addTask { pid := 2 }]
    c.policy = some wanderer ∧
      ((c.inquiries (.wake 1 8)).map Inquiry.reasons = [[], [.notQueued 1]]) ∧
      (c.step (.wake 1 8)).policy = none ∧
      (c.step (.wake 1 8)).exit = some ⟨"wanderer", .notQueued 1⟩ := by
  intro c
  exact ⟨rfl, rfl, (@removed_for_first_reason _ c wanderer rfl (.wake 1 8) nofun).2⟩

/-- The local queue is that of the processor chosen. If it were that of the processor that the callback
runs for, the first reason would be another one. And on request the policy goes without a callback. -/
theorem wanderer_places_where_it_chose :
    let c := (new 1 ()).steps [.install wanderer, .addTask { pid := 1 }, .addTask { pid := 2 }]
    c.policy = some wanderer ∧
      ((c.inquiries (.wake 1 8)).flatMap fun i => i.reasonsOn i.matter.cpu).head? =
        some (.invalidCpu 99) ∧
      (c.step (.wake 1 8)).exit = some ⟨"wanderer", .notQueued 1⟩ ∧
      c.inquiries .uninstall = [] ∧ (c.step .uninstall).policy = none :=
  ⟨rfl, rfl, rfl, rfl, rfl⟩

end LoadableSched.SchedClass
