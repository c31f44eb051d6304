import LoadableSched.Proofs.Policy.Bookkeeping

/-!
What an operation on tasks comes to under a policy that keeps the rules of the class and notes no more than it
says: at most one task gets ready, starts or stops, and the notes tell which.
-/

namespace LoadableSched.SchedClass

variable {ω α : Type} {c d e : SchedClass ω} {policy : Policy ω} {b : Bookkeeping ω}

/-! The callbacks, each with what the class makes of it. -/

theorem place_memory (c : SchedClass ω) (cpu : CpuId) (placed : List Pid) (placements : List Placement) :
    (c.place cpu placed placements).2.memory = c.memory := by
  apply place_closure (R := fun c d => d.memory = c.memory)
  · exact fun _ => rfl
  · exact fun first later => later.trans first
  · intro c d _ _ _ made
    obtain ⟨_, _, _, r, _, rfl⟩ := placeOne_inv made
    rfl

theorem place_others {pid : Pid} {placements : List Placement} (other : ∀ p ∈ placements, p.pid ≠ pid)
    (cpu : CpuId) (placed : List Pid) :
    (c.place cpu placed placements).2.tasks.get? pid = c.tasks.get? pid := by
  induction placements generalizing c placed with
  | nil => rfl
  | cons p rest ih =>
    unfold place
    split
    · rfl
    · rename_i made
      have here : pid ≠ p.pid := (other p List.mem_cons_self).symm
      exact (ih (fun q member => other q (List.mem_cons_of_mem _ member)) _).trans
        ((placeOne_get? made).2 pid here)

/-- From `c` to `d` no time passed, and no record of a task changed but for these placements. -/
structure Grants (c : SchedClass ω) (made : List Placement) (d : SchedClass ω) : Prop where
  policy : d.policy = c.policy
  clock : d.clock = c.clock
  holds : ∀ p ∈ made, d.Holds p
  others : ∀ pid, (∀ p ∈ made, p.pid ≠ pid) → d.tasks.get? pid = c.tasks.get? pid

theorem Grants.none (h : c.Grants [] d) (pid : Pid) : d.tasks.get? pid = c.tasks.get? pid :=
  h.others pid (List.forall_mem_nil _)

namespace Inquiry

variable {i : Inquiry ω}

theorem grants (fine : i.failure = none) (other : ¬ i.Enables) :
    i.before.Grants i.dispatches i.after ∧ i.after.memory = i.called.memory := by
  obtain ⟨proper, accepted, _⟩ := reasons_of_fine fine
  have after : i.after = (i.called.place i.localCpu [] i.dispatches).2 :=
    (after_fine fine).trans (congrArg Prod.snd (heed_placed proper accepted other))
  have retains : i.before.Retains i.after := after_fine fine ▸ i.reached_retains
  refine ⟨⟨retains.policy, retains.clock, (applied_of_placed fine other).holds, fun pid apart => ?_⟩, ?_⟩
  · rw [after]
    exact place_others apart _ _
  · rw [after, place_memory]

end Inquiry

section

variable (records : policy.Records b) (active : c.policy = some policy)

include records

theorem Inquiry.allowed {i : Inquiry ω} (same : i.policy = policy) (later : i.matter ≠ .init)
    (other : ¬ i.Enables) (fine : i.failure = none) :
    i.before.Grants i.dispatches i.after ∧
      b.Allows i.before.clock i.before.memory i.matter i.dispatches i.after.memory := by
  obtain ⟨grants, memory⟩ := i.grants fine other
  subst same
  exact ⟨grants, memory ▸ records.allows i.before i.matter later⟩

include active

omit records active in
theorem call_resumes (c : SchedClass ω) (cpu : CpuId) (body : Callback ω α) :
    (c.call cpu body).2 = c.resume (c.invoke cpu body).2 := by
  unfold call
  dsimp only
  split <;> rfl

theorem enable_grants {pid : Pid} (fine : ∀ i ∈ c.enableInquiries pid, i.failure = none) :
    (c.enableInquiries pid).flatMap (·.dispatches) = [] ∧ (c.enable pid).clock = c.clock ∧
      (c.enable pid).memory = c.memory ∧
      ∀ other, other ≠ pid → (c.enable pid).tasks.get? other = c.tasks.get? other := by
  unfold enable enableWith enableInquiries at *
  rw [active] at fine ⊢
  cases named : c.task? pid with
  | none => simp
  | some task =>
    rw [named] at fine
    have well := fine _ (List.mem_singleton_self _)
    have resumes := c.call_resumes task.lastCpu (policy.enable task)
    have allows := records.allows c (.enable pid task) (by simp)
    simp only [Inquiry.called, Inquiry.ran, Policy.answer, Matter.cpu, invoke_map, ← resumes] at allows
    unfold Inquiry.failure Inquiry.heed at well
    dsimp only at well ⊢
    generalize c.call task.lastCpu (policy.enable task) = made at well resumes allows ⊢
    obtain ⟨_ | _, d⟩ := made
    · cases well
    · generalize dispatches : Inquiry.dispatches ⟨c, policy, .enable pid task⟩ = asked at allows
      dsimp only at resumes allows
      generalize memory : d.memory = m at allows
      cases allows
      subst resumes
      refine ⟨by simp [dispatches], rfl, memory, fun other apart => ?_⟩
      simp [mapTask, resume, Table.get?_modify, apart]

omit active in
theorem enqueueWith_grants {pid : Pid} {slot : Slot} (found : c.tasks.get? pid = some slot)
    (number : slot.task.pid = pid) (cpu : CpuId) (flags : UInt64)
    (fine : ∀ i ∈ c.enqueueWithInquiries policy pid cpu flags, i.failure = none) :
    ∃ p : Placement, p.pid = pid ∧
      (c.enqueueWithInquiries policy pid cpu flags).flatMap (·.dispatches) = [p] ∧
      c.Grants [p] (c.enqueueWith policy pid cpu flags) ∧
      b.ready p c.clock c.memory (c.enqueueWith policy pid cpu flags).memory := by
  have named : c.task? pid = some slot.task := by rw [task?, found]; rfl
  have settled : c.enqueueWith policy pid cpu flags =
      Inquiry.after ⟨c, policy, .enqueue pid slot.task cpu flags⟩ := by
    simp only [enqueueWith, named]
    exact (after_enqueue policy pid slot.task cpu flags).symm
  unfold enqueueWithInquiries at *
  rw [named] at fine ⊢
  obtain ⟨grants, allows⟩ := Inquiry.allowed (i := ⟨c, policy, .enqueue pid slot.task cpu flags⟩) records rfl
    (by simp) (by rintro ⟨_, _, enables⟩; cases enables) (fine _ (List.mem_singleton_self _))
  dsimp only at *
  rw [settled]
  generalize Inquiry.after ⟨c, policy, .enqueue pid slot.task cpu flags⟩ = d at *
  generalize dispatches : Inquiry.dispatches ⟨c, policy, .enqueue pid slot.task cpu flags⟩ = asked at *
  cases allows with
  | enqueues same ready => exact ⟨_, same.trans number, by simp [dispatches], grants, ready⟩

omit active in
theorem chooseCpu_grants {task : Task} {flags : UInt64}
    (fine : Inquiry.failure ⟨c, policy, .selectCpu task flags⟩ = none) :
    ∃ cpu d, c.chooseCpu policy task flags =
        (.ok (cpu, (Inquiry.dispatches ⟨c, policy, .selectCpu task flags⟩).map (·.pid)), d) ∧
      c.Grants (Inquiry.dispatches ⟨c, policy, .selectCpu task flags⟩) d ∧
      b.Allows c.clock c.memory (.selectCpu task flags)
        (Inquiry.dispatches ⟨c, policy, .selectCpu task flags⟩) d.memory := by
  obtain ⟨proper, accepted, faultless⟩ := Inquiry.reasons_of_fine fine
  obtain ⟨grants, allows⟩ := Inquiry.allowed (i := ⟨c, policy, .selectCpu task flags⟩) records rfl
    (by simp) (by rintro ⟨_, _, enables⟩; cases enables) fine
  have settled := after_selectCpu (c := c) policy task flags
  have answer := Inquiry.place_dispatches proper
    (Inquiry.localCpu ⟨c, policy, .selectCpu task flags⟩)
  have asked := Inquiry.ran_placements proper
  have ran := Inquiry.ran_proper proper
  rw [Inquiry.faultsOn_placed (by rintro ⟨_, _, enables⟩; cases enables)] at faultless
  rw [faultless] at answer
  dsimp only at grants allows
  generalize Inquiry.after ⟨c, policy, .selectCpu task flags⟩ = d at *
  generalize Inquiry.dispatches ⟨c, policy, .selectCpu task flags⟩ = made at *
  simp only [Inquiry.refusals, Inquiry.called, Inquiry.localCpu, Inquiry.ran, Policy.answer, Matter.cpu,
    invoke_map] at accepted answer asked ran
  have inside : ¬ c.cpus ≤ (c.invoke task.lastCpu (policy.selectCpu task task.lastCpu flags)).1 := by
    simpa using accepted
  rw [← invoke_cpus c task.lastCpu (policy.selectCpu task task.lastCpu flags)] at inside
  simp only [chooseCpu, call_proper ran, asked, if_neg inside] at settled ⊢
  generalize place _ _ _ _ = outcome at answer settled ⊢
  obtain ⟨done, e⟩ := outcome
  dsimp only at answer
  subst answer
  obtain rfl : d = e := settled
  exact ⟨_, d, rfl, grants, allows⟩

omit active in
theorem consult_grants (matter : Matter) {cpu : CpuId} {body : Callback ω Unit}
    (heeds : Inquiry.heed ⟨c, policy, matter⟩ =
      (failure? (c.callAndPlace cpu body).1, (c.callAndPlace cpu body).2))
    (later : matter ≠ .init) (other : ∀ pid task, matter ≠ .enable pid task)
    (fine : Inquiry.failure ⟨c, policy, matter⟩ = none) :
    c.Grants (Inquiry.dispatches ⟨c, policy, matter⟩) (c.consult cpu body) ∧
      b.Allows c.clock c.memory matter (Inquiry.dispatches ⟨c, policy, matter⟩)
        (c.consult cpu body).memory := by
  rw [← after_consult policy heeds later]
  exact Inquiry.allowed (i := ⟨c, policy, matter⟩) records rfl later
    (fun ⟨pid, task, enables⟩ => other pid task enables) fine

theorem refill_grants (cpu : CpuId) (fine : ∀ i ∈ c.refillInquiries cpu, i.failure = none) :
    (c.refillInquiries cpu).flatMap (·.dispatches) = [] ∧ c.Grants [] (c.refill cpu) ∧
      (c.refill cpu).memory = c.memory := by
  unfold refill refillInquiries at *
  rw [active] at fine ⊢
  dsimp only at *
  by_cases busy : c.localLength cpu ≠ 0
  · rw [if_pos busy, if_pos busy]
    exact ⟨rfl, ⟨rfl, rfl, List.forall_mem_nil _, fun _ _ => rfl⟩, rfl⟩
  · rw [if_neg busy] at fine
    rw [if_neg busy, if_neg busy]
    obtain ⟨grants, allows⟩ := consult_grants records (c := c) (.dispatch cpu (c.previousWaiting cpu)) rfl
      nofun nofun (fine _ (List.mem_singleton_self _))
    generalize dispatches : Inquiry.dispatches ⟨c, policy, _⟩ = made at *
    generalize memory : (c.consult cpu _).memory = m at *
    cases allows with
    | refills => exact ⟨by simp [dispatches], grants, rfl⟩

theorem start_grants {cpu : CpuId} {task : Task} (fine : ∀ i ∈ c.startInquiries cpu task, i.failure = none) :
    (c.startInquiries cpu task).flatMap (·.dispatches) = [] ∧ c.Grants [] (c.start cpu task) ∧
      b.start task.pid c.clock c.memory (c.start cpu task).memory := by
  unfold start startInquiries at *
  rw [active] at fine ⊢
  obtain ⟨grants, allows⟩ := consult_grants records (c := c) (.running cpu task) rfl nofun nofun
    (fine _ (List.mem_singleton_self _))
  dsimp only at *
  generalize dispatches : Inquiry.dispatches ⟨c, policy, _⟩ = made at *
  cases allows with
  | starts start => exact ⟨by simp [dispatches], grants, start⟩

theorem halt_grants (cpu : CpuId) (task : Task) (runnable : Bool)
    (fine : ∀ i ∈ c.haltInquiries cpu task runnable, i.failure = none) :
    (c.haltInquiries cpu task runnable).flatMap (·.dispatches) = [] ∧
      c.Grants [] (c.halt cpu task runnable) ∧
      b.halt task c.memory (c.halt cpu task runnable).memory := by
  unfold halt haltInquiries at *
  rw [active] at fine ⊢
  obtain ⟨grants, allows⟩ := consult_grants records (c := c) (.stopping cpu task runnable) rfl nofun nofun
    (fine _ (List.mem_singleton_self _))
  dsimp only at *
  generalize dispatches : Inquiry.dispatches ⟨c, policy, _⟩ = made at *
  cases allows with
  | halts halt => exact ⟨by simp [dispatches], grants, halt⟩

end

/-! The operations. -/

def Operation.newcomer : Operation ω → Option Pid
  | .addTask task => some task.pid
  | _ => none

def begun (c : SchedClass ω) : Operation ω → Option Pid
  | .pickNext cpu => if c.current? cpu = none then (c.pickNext cpu).1.toOption.join else none
  | _ => none

/-- From `c` to `d` no time passed, nobody but a newcomer was entered, and of the tasks that do not sleep
nobody's record changed but that of one. -/
structure Calm (c : SchedClass ω) (newcomer busy : Option Pid) (d : SchedClass ω) : Prop where
  clock : d.clock = c.clock
  entered : ∀ pid, d.tasks.contains pid = true → c.tasks.contains pid = true ∨ newcomer = some pid
  others : ∀ pid slot, busy ≠ some pid → d.tasks.get? pid = some slot →
    slot.state = .sleeping ∨ c.tasks.get? pid = some slot

structure Touches (c : SchedClass ω) (pid : Pid) (d : SchedClass ω) : Prop where
  clock : d.clock = c.clock
  others : ∀ other, other ≠ pid → d.tasks.get? other = c.tasks.get? other

namespace Touches

variable {pid : Pid}

theorem trans (first : c.Touches pid d) (later : d.Touches pid e) : c.Touches pid e where
  clock := later.clock.trans first.clock
  others other apart := (later.others other apart).trans (first.others other apart)

theorem modify (c : SchedClass ω) (pid : Pid) (f : Slot → Slot) :
    c.Touches pid { c with tasks := c.tasks.modify pid f } where
  clock := rfl
  others other apart := by simp [Table.get?_modify, apart]

theorem calm (touches : c.Touches pid d) (known : c.tasks.contains pid = true) (newcomer : Option Pid) :
    c.Calm newcomer (some pid) d where
  clock := touches.clock
  entered other there := by
    by_cases same : other = pid
    · exact .inl (same ▸ known)
    · exact .inl (by rwa [Table.contains_eq, touches.others other same] at there)
  others other slot apart found :=
    .inr ((touches.others other fun same => apart (congrArg some same.symm)).symm.trans found)

theorem calm_asleep (touches : c.Touches pid d) (known : c.tasks.contains pid = true)
    (asleep : ∀ slot, d.tasks.get? pid = some slot → slot.state = .sleeping) (newcomer : Option Pid) :
    c.Calm newcomer none d where
  clock := touches.clock
  entered := (touches.calm known newcomer).entered
  others other slot _ found := by
    by_cases same : other = pid
    · exact .inl (asleep slot (same ▸ found))
    · exact .inr ((touches.others other same).symm.trans found)

end Touches

theorem Grants.touches {made : List Placement} {pid : Pid} (grants : c.Grants made d)
    (only : ∀ p ∈ made, p.pid = pid) : c.Touches pid d where
  clock := grants.clock
  others other apart := grants.others other fun p member same => apart (same.symm.trans (only p member))

theorem Grants.still (grants : c.Grants [] d) (pid : Pid) : c.Touches pid d :=
  grants.touches (List.forall_mem_nil _)

structure Revises (c : SchedClass ω) (pid : Pid) (slot : Slot) (d : SchedClass ω) : Prop where
  policy : d.policy = c.policy
  memory : d.memory = c.memory
  touches : c.Touches pid d
  record : d.tasks.get? pid = some slot

namespace Revises

variable {pid : Pid} {slot revised : Slot}

theorem trans (first : c.Revises pid slot d) (later : d.Revises pid revised e) : c.Revises pid revised e where
  policy := later.policy.trans first.policy
  memory := later.memory.trans first.memory
  touches := first.touches.trans later.touches
  record := later.record

theorem modify (found : c.tasks.get? pid = some slot) (f : Slot → Slot) :
    c.Revises pid (f slot) { c with tasks := c.tasks.modify pid f } :=
  ⟨rfl, rfl, .modify c pid f, by simp [Table.get?_modify, found]⟩

theorem setState (found : c.tasks.get? pid = some slot) (state : RunState) :
    c.Revises pid { slot with state } (c.setState pid state) :=
  modify found fun slot => { slot with state }

theorem mapTask (found : c.tasks.get? pid = some slot) (f : Task → Task) :
    c.Revises pid { slot with task := f slot.task } (c.mapTask pid f) :=
  modify found fun slot => { slot with task := f slot.task }

theorem vacate (found : c.tasks.get? pid = some slot) (cpu : CpuId) : c.Revises pid slot (c.vacate cpu pid) :=
  ⟨rfl, rfl, ⟨rfl, fun _ _ => rfl⟩, found⟩

theorem engage (found : c.tasks.get? pid = some slot) (cpu : CpuId) :
    c.Revises pid ⟨slot.task.startOn cpu, .running cpu⟩ ((c.occupy cpu pid).engage cpu pid) := by
  have occupied : c.Revises pid slot (c.occupy cpu pid) := ⟨rfl, rfl, ⟨rfl, fun _ _ => rfl⟩, found⟩
  exact occupied.trans (modify occupied.record fun slot => ⟨slot.task.startOn cpu, .running cpu⟩)

end Revises

/-- All that can happen to the tasks, with the placements made, the task that starts and the notes taken. -/
inductive Episode (b : Bookkeeping ω) (c : SchedClass ω) (newcomer : Option Pid) :
    List Placement → Option Pid → SchedClass ω → Prop where
  | still {d : SchedClass ω} (calm : c.Calm newcomer none d) (memory : d.memory = c.memory) :
      Episode b c newcomer [] none d
  | readies {d : SchedClass ω} {p : Placement} (slept : c.state? p.pid = some .sleeping)
      (calm : c.Calm newcomer (some p.pid) d) (holds : d.Holds p)
      (ready : b.ready p c.clock c.memory d.memory) : Episode b c newcomer [p] none d
  | starts {d : SchedClass ω} {pid : Pid} {slot : Slot} {cpu : CpuId} (found : c.tasks.get? pid = some slot)
      (waited : slot.state = .queued) (calm : c.Calm newcomer (some pid) d)
      (runs : d.tasks.get? pid = some ⟨slot.task.startOn cpu, .running cpu⟩)
      (start : b.start pid c.clock c.memory d.memory) : Episode b c newcomer [] (some pid) d
  | rests {d : SchedClass ω} {task : Task} (calm : c.Calm newcomer none d)
      (halt : b.halt task c.memory d.memory) : Episode b c newcomer [] none d
  | returns {d : SchedClass ω} {p : Placement} {task : Task} {m : ω} {cpu : CpuId}
      (ran : c.state? p.pid = some (.running cpu)) (calm : c.Calm newcomer (some p.pid) d)
      (holds : d.Holds p) (halt : b.halt task c.memory m) (ready : b.ready p c.clock m d.memory) :
      Episode b c newcomer [p] none d

theorem Episode.clock {newcomer started : Option Pid} {made : List Placement}
    (episode : Episode b c newcomer made started d) : d.clock = c.clock := by
  cases episode with
  | still calm | readies _ calm | starts _ _ calm | rests calm | returns _ calm => exact calm.clock

theorem Calm.refl (c : SchedClass ω) (newcomer busy : Option Pid) : c.Calm newcomer busy c :=
  ⟨rfl, fun _ => .inl, fun _ _ _ => .inr⟩

theorem Episode.refl (c : SchedClass ω) (newcomer : Option Pid) : Episode b c newcomer [] none c :=
  .still (.refl c newcomer none) rfl

section

variable (records : policy.Records b) (active : c.policy = some policy)

include records active

theorem addTask_episode (steady : c.Steady) (task : Task)
    (fine : ∀ i ∈ c.addTaskInquiries task, i.failure = none) :
    Episode b c (some task.pid) ((c.addTaskInquiries task).flatMap (·.dispatches)) none
      (c.addTask task).2 := by
  unfold addTaskInquiries at *
  by_cases known : c.tasks.contains task.pid = true
  · simp only [addTask, if_pos known]
    exact .refl c _
  · rw [if_neg known] at fine ⊢
    have fresh : c.state? task.pid = none := by simpa [Table.contains_eq, SchedClass.state?] using known
    obtain ⟨_, _, states⟩ := steady.enters fresh
    obtain ⟨nothing, clock, memory, others⟩ :=
      enable_grants records (c := c.register task) active fine
    have same : (c.addTask task).2 = (c.register task).enable task.pid := by rw [addTask, if_neg known]
    rw [nothing]
    refine .still ⟨?_, fun pid there => ?_, fun pid slot _ found => ?_⟩ ?_
    · rw [same]
      exact clock
    · by_cases here : pid = task.pid
      · exact .inr (congrArg some here.symm)
      · have before := states pid
        rw [if_neg here] at before
        simp only [SchedClass.state?] at before
        left
        simp only [Table.contains_eq] at there ⊢
        rw [← Option.isSome_map (f := Slot.state), ← before, Option.isSome_map]
        exact there
    · by_cases here : pid = task.pid
      · left
        have asleep := states pid
        rw [if_pos here, SchedClass.state?, found] at asleep
        exact Option.some.inj asleep
      · right
        rw [same, others pid here] at found
        simpa [register, Table.get?_insert, here] using found
    · rw [same]
      exact memory

omit records active in
theorem removeTask_episode (pid : Pid) : Episode b c none [] none (c.removeTask pid).2 := by
  unfold removeTask
  cases found : c.tasks.get? pid with
  | none => exact .refl c none
  | some slot =>
    have known : c.tasks.contains pid = true := by rw [Table.contains_eq, found]; rfl
    have erased : ∀ d : SchedClass ω, d.clock = c.clock → d.memory = c.memory →
        d.tasks = c.tasks.erase pid → Episode b c none [] none d := by
      intro d clock memory tasks
      have touches : c.Touches pid d := ⟨clock, fun other apart => by simp [tasks, Table.get?_erase, apart]⟩
      have gone : ∀ slot, d.tasks.get? pid = some slot → slot.state = .sleeping := fun slot found => by
        simp [tasks, Table.get?_erase] at found
      exact .still (touches.calm_asleep known gone none) memory
    cases state : slot.state <;> simp only [state] <;> exact erased _ rfl rfl rfl

omit active in
theorem Revises.enqueueWith {pid : Pid} {slot : Slot} (revises : c.Revises pid slot d)
    (number : slot.task.pid = pid) (cpu : CpuId) (flags : UInt64)
    (fine : ∀ i ∈ d.enqueueWithInquiries policy pid cpu flags, i.failure = none) :
    ∃ p : Placement, p.pid = pid ∧
      (d.enqueueWithInquiries policy pid cpu flags).flatMap (·.dispatches) = [p] ∧
      c.Touches pid (d.enqueueWith policy pid cpu flags) ∧ (d.enqueueWith policy pid cpu flags).Holds p ∧
      b.ready p c.clock c.memory (d.enqueueWith policy pid cpu flags).memory := by
  obtain ⟨p, same, placed, grants, ready⟩ :=
    enqueueWith_grants records revises.record number cpu flags fine
  have only : ∀ q ∈ [p], q.pid = pid := fun q member => List.mem_singleton.mp member ▸ same
  rw [revises.touches.clock, revises.memory] at ready
  exact ⟨p, same, placed, revises.touches.trans (grants.touches only),
    grants.holds p (List.mem_singleton_self p), ready⟩

theorem enqueue_episode (steady : c.Steady) (pid : Pid) (flags : UInt64)
    (fine : ∀ i ∈ c.enqueueInquiries pid flags, i.failure = none) :
    Episode b c none ((c.enqueueInquiries pid flags).flatMap (·.dispatches)) none
      (c.enqueue pid flags).2 := by
  unfold enqueue enqueueInquiries at *
  cases found : c.tasks.get? pid with
  | none => exact .refl c none
  | some slot =>
    rw [found] at fine
    have known : c.tasks.contains pid = true := by rw [Table.contains_eq, found]; rfl
    have number := (steady.healthy.recorded pid slot found).1
    dsimp only at fine ⊢
    by_cases awake : slot.state ≠ .sleeping
    · simp only [if_pos awake]
      exact .refl c none
    simp only [if_neg awake] at fine ⊢
    have slept : c.state? pid = some .sleeping := by
      rw [state?, found, ← Decidable.not_not.mp awake]
      rfl
    have revises : c.Revises pid { slot with state := .queued } (c.setState pid .queued) :=
      .setState found .queued
    generalize c.setState pid .queued = d at *
    rw [revises.policy.trans active] at fine ⊢
    obtain ⟨p, rfl, placed, touches, holds, ready⟩ :=
      revises.enqueueWith records number slot.task.lastCpu flags fine
    dsimp only
    rw [placed]
    exact .readies slept (touches.calm known none) holds ready

theorem wake_episode (steady : c.Steady) (pid : Pid) (flags : UInt64)
    (fine : ∀ i ∈ c.wakeInquiries pid flags, i.failure = none) :
    Episode b c none ((c.wakeInquiries pid flags).flatMap (·.dispatches)) none
      (c.wake pid flags).2 := by
  unfold wake wakeInquiries at *
  cases found : c.tasks.get? pid with
  | none => exact .refl c none
  | some slot =>
    rw [found] at fine
    have known : c.tasks.contains pid = true := by rw [Table.contains_eq, found]; rfl
    have number := (steady.healthy.recorded pid slot found).1
    dsimp only at fine ⊢
    by_cases awake : slot.state ≠ .sleeping
    · simp only [if_pos awake]
      exact .refl c none
    have slept : c.state? pid = some .sleeping := by
      rw [state?, found, ← Decidable.not_not.mp awake]
      rfl
    simp only [if_neg awake] at fine ⊢
    have revises : c.Revises pid { slot with state := .queued } (c.setState pid .queued) :=
      .setState found .queued
    generalize c.setState pid .queued = d at *
    rw [revises.policy.trans active] at fine ⊢
    dsimp only at fine ⊢
    obtain ⟨cpu, e, chosen, grants, allows⟩ :=
      chooseCpu_grants records (c := d) (fine _ List.mem_cons_self)
    rw [chosen] at fine ⊢
    rw [List.flatMap_cons]
    generalize dispatches : Inquiry.dispatches ⟨d, policy, .selectCpu slot.task flags⟩ = made at *
    generalize left : e.memory = m at allows
    have asked := grants.clock.trans revises.touches.clock
    cases allows with
    | leaves =>
      -- The policy is asked once more.
      have moved := Revises.mapTask ((grants.none pid).trans revises.record) fun task =>
        { task with lastCpu := cpu }
      simp only [List.map_nil, List.contains_nil, Bool.false_eq_true, if_false, List.nil_append] at fine ⊢
      generalize (e.mapTask pid fun task => { task with lastCpu := cpu }) = f at *
      obtain ⟨p, rfl, placed, touches, holds, ready⟩ := moved.enqueueWith records number cpu 0
        fun i member => fine i (List.mem_cons_of_mem _ member)
      have woken := (revises.touches.trans (grants.still _)).trans touches
      rw [placed]
      rw [asked, left, revises.memory] at ready
      exact .readies slept (woken.calm known none) holds ready
    | @chooses _ _ p _ direct ready =>
      have owner : p.pid = pid := direct.trans number
      subst owner
      have only : ∀ q ∈ [p], q.pid = p.pid := fun q member => by rw [List.mem_singleton.mp member]
      obtain ⟨held, placed, queued, slice⟩ := grants.holds p (List.mem_singleton_self p)
      have moved := Revises.mapTask placed fun task => { task with lastCpu := cpu }
      have woken := (revises.touches.trans (grants.touches only)).trans moved.touches
      simp only [List.map_cons, List.map_nil, List.contains_cons, BEq.rfl, Bool.true_or, if_true,
        List.flatMap_nil, List.append_nil]
      rw [revises.touches.clock, revises.memory, ← left, ← moved.memory] at ready
      exact .readies slept (woken.calm known none) ⟨_, moved.record, queued, slice⟩ ready

theorem run_episode {cpu : CpuId} {pid : Pid} {slot : Slot} (found : c.tasks.get? pid = some slot)
    (number : slot.task.pid = pid) (fine : ∀ i ∈ c.runInquiries cpu pid, i.failure = none) :
    (c.runInquiries cpu pid).flatMap (·.dispatches) = [] ∧ c.Touches pid (c.run cpu pid).2 ∧
      (c.run cpu pid).2.tasks.get? pid = some ⟨slot.task.startOn cpu, .running cpu⟩ ∧
      b.start pid c.clock c.memory (c.run cpu pid).2.memory := by
  have there : (c.occupy cpu pid).tasks.get? pid = some slot := found
  have engaged := Revises.engage found cpu
  unfold run runInquiries at *
  simp only [there] at fine ⊢
  obtain ⟨nothing, grants, start⟩ := start_grants records (engaged.policy.trans active) fine
  exact ⟨nothing, engaged.touches.trans (grants.still pid), (grants.none pid).trans engaged.record,
    number ▸ start⟩

theorem pickNext_episode (steady : c.Steady) (cpu : CpuId)
    (fine : ∀ i ∈ c.pickNextInquiries cpu, i.failure = none) :
    Episode b c none ((c.pickNextInquiries cpu).flatMap (·.dispatches)) (c.begun (.pickNext cpu))
      (c.pickNext cpu).2 := by
  unfold begun pickNext pickNextInquiries at *
  by_cases unknown : c.cpus ≤ cpu
  · simp only [if_pos unknown, Except.toOption, Option.join_none, ite_self]
    exact .refl c none
  simp only [if_neg unknown] at fine ⊢
  cases free : c.current? cpu with
  | some pid => exact .refl c none
  | none =>
    rw [free] at fine
    simp only [if_true] at fine ⊢
    obtain ⟨nothing, grants, memory⟩ := refill_grants records active cpu
      fun i member => fine i (List.mem_append_left _ member)
    obtain ⟨_, between⟩ := refill_serves steady.agrees cpu
    obtain ⟨next, q, made, moved, _⟩ := takeNext_eq between.queues cpu
    rw [made] at fine ⊢
    rw [List.flatMap_append, nothing, List.nil_append]
    cases next with
    | none =>
      refine .still ⟨grants.clock, fun pid there => .inl ?_, fun pid slot _ found => .inr ?_⟩ memory
      · rwa [Table.contains_eq, grants.none] at there
      · exact (grants.none pid).symm.trans found
    | some pid =>
      obtain ⟨_, queued, _⟩ := taken_agrees between moved
      obtain ⟨slot, found, waited⟩ := Option.map_eq_some_iff.mp queued
      have before : c.tasks.get? pid = some slot := (grants.none pid).symm.trans found
      have number := (steady.healthy.recorded pid slot before).1
      have refilled : c.Revises pid slot { c.refill cpu with queues := q } :=
        ⟨grants.policy, memory, ⟨grants.clock, fun other _ => grants.none other⟩, found⟩
      have known : c.tasks.contains pid = true := by rw [Table.contains_eq, before]; rfl
      dsimp only at fine ⊢
      generalize ({ c.refill cpu with queues := q } : SchedClass ω) = d at *
      obtain ⟨nobody, ran, runs, start⟩ := run_episode records (refilled.policy.trans active)
        refilled.record number fun i member => fine i (List.mem_append_right _ member)
      have result : (d.run cpu pid).1 = .ok (some pid) := by
        have here : (d.occupy cpu pid).tasks.get? pid = some slot := refilled.record
        simp only [run, here]
      rw [nobody, result]
      rw [refilled.touches.clock, refilled.memory] at start
      exact .starts before waited ((refilled.touches.trans ran).calm known none) runs start

theorem stop_episode (steady : c.Steady) (cpu : CpuId) (ran : Nanos) (runnable : Bool)
    (fine : ∀ i ∈ c.stopInquiries cpu ran runnable, i.failure = none) :
    Episode b c none ((c.stopInquiries cpu ran runnable).flatMap (·.dispatches)) none
      (c.stop cpu ran runnable).2 := by
  unfold stop stopInquiries at *
  by_cases unknown : c.cpus ≤ cpu
  · simp only [if_pos unknown]
    exact .refl c none
  simp only [if_neg unknown] at fine ⊢
  cases here : c.current? cpu with
  | none => exact .refl c none
  | some pid =>
    rw [here] at fine
    have runs := steady.healthy.held cpu pid here
    obtain ⟨slot, found, state⟩ := Option.map_eq_some_iff.mp runs
    have known : c.tasks.contains pid = true := by rw [Table.contains_eq, found]; rfl
    have number := (steady.healthy.recorded pid slot found).1
    have there : (c.vacate cpu pid).tasks.get? pid = some slot := found
    simp only [there] at fine ⊢
    have charged : c.Revises pid ⟨slot.task.charge ran, .running cpu⟩
        ((c.vacate cpu pid).mapTask pid fun _ => slot.task.charge ran) :=
      state ▸ (Revises.vacate found cpu).trans (.mapTask there fun _ => slot.task.charge ran)
    generalize (c.vacate cpu pid).mapTask pid (fun _ => slot.task.charge ran) = d at *
    obtain ⟨nothing, grants, halt⟩ := halt_grants records (charged.policy.trans active) cpu
      (slot.task.charge ran) runnable fun i member => fine i (List.mem_append_left _ member)
    rw [List.flatMap_append, nothing, List.nil_append]
    have left := charged.touches.trans (grants.still pid)
    have still := grants.policy.trans (charged.policy.trans active)
    have off := (grants.none pid).trans charged.record
    rw [charged.memory] at halt
    replace fine := fun i member => fine i (List.mem_append_right _ member)
    generalize d.halt cpu (slot.task.charge ran) runnable = e at *
    have onto : e.state? pid = some (.running cpu) := by rw [state?, off]; rfl
    unfold settleStopped settleStoppedInquiries at *
    simp only [onto, ne_eq, not_true_eq_false, if_false] at fine ⊢
    cases runnable with
    | false =>
      simp only [Bool.not_false, if_true] at fine ⊢
      have asleep := Revises.setState off .sleeping
      refine .rests ((left.trans asleep.touches).calm_asleep known (fun other found => ?_) none) halt
      cases asleep.record.symm.trans found
      rfl
    | true =>
      simp only [Bool.not_true, Bool.false_eq_true, if_false] at fine ⊢
      have requeued := Revises.setState off .queued
      generalize e.setState pid .queued = f at *
      rw [requeued.policy.trans still] at fine ⊢
      obtain ⟨p, rfl, placed, touches, holds, ready⟩ := requeued.enqueueWith records number cpu 0 fine
      dsimp only
      rw [placed]
      rw [left.clock] at ready
      exact .returns runs ((left.trans touches).calm known none) holds halt ready

omit records in
theorem Steady.kept (steady : c.Steady) {op : Operation ω} (kept : op ≠ .uninstall) :
    (c.step op).Steady ∧ (c.step op).policy = some policy := by
  by_cases conforms : op.Conforms
  · exact ⟨steady.step op conforms, (step_stands steady.agrees steady.backed steady.healthy conforms).2
      policy active kept⟩
  · cases op with
    | install other =>
      rw [show c.step (.install other) = c from congrArg Prod.snd (install_busy active)]
      exact ⟨steady, active⟩
    | _ => exact absurd trivial conforms

def Operation.Drives : Operation ω → Prop
  | .uninstall | .advanceClock _ | .setMemory _ => False
  | _ => True

theorem step_episode (steady : c.Steady) {op : Operation ω} (drives : op.Drives) :
    Episode b c op.newcomer ((c.inquiries op).flatMap (·.dispatches)) (c.begun op) (c.step op) := by
  have fine : ∀ i ∈ c.inquiries op, i.failure = none := fun i asked => (steady.fine active asked).2.2
  cases op with
  | install other =>
    have same : c.step (.install other) = c := congrArg Prod.snd (install_busy active)
    have nothing : c.inquiries (.install other) = [] := by simp [inquiries, installInquiries, active]
    rw [same, nothing]
    exact .refl c none
  | addTask task => exact addTask_episode records active steady task fine
  | removeTask pid => exact removeTask_episode pid
  | wake pid flags => exact wake_episode records active steady pid flags fine
  | enqueue pid flags => exact enqueue_episode records active steady pid flags fine
  | pickNext cpu => exact pickNext_episode records active steady cpu fine
  | stop cpu ran runnable => exact stop_episode records active steady cpu ran runnable fine
  | uninstall | advanceClock | setMemory => exact drives.elim

end

end LoadableSched.SchedClass
