import LoadableSched.Proofs.Class.Membership

/-!
Tasks wake, run and stop: what these operations keep, and from it what every run of operations keeps.
-/

namespace LoadableSched.SchedClass

variable {ω : Type} {c d : SchedClass ω} {loose : List Pid}

theorem enqueueGlobal_serves {pid : Pid} (agrees : c.Agrees [pid])
    (queued : c.state? pid = some .queued) (absent : pid ∉ c.queues.waiting) :
    ∃ d, c.enqueueGlobal pid = .ok d ∧ c.Serves [] d ∧ d.Agrees [] := by
  obtain ⟨d, made, places, waiting⟩ :=
    enqueueGlobal_places agrees (contains_of_state? queued) absent
  have waits : pid ∈ d.queues.waiting := waiting.mem_iff.mpr List.mem_cons_self
  refine ⟨d, made, .still places.current places.cpus places.contains ?_,
    (places.agrees agrees).tighten waits⟩
  intro other
  rcases places.placed other with ⟨same, _⟩ | ⟨before, there, slot, slice, _, after⟩
  · exact congrArg (Option.map Slot.state) same
  · have same : other = pid := by
      rcases List.mem_cons.mp (waiting.mem_iff.mp there) with same | still
      · exact same
      · exact absurd still before
    rw [same, queued, ← same]
    exact congrArg (Option.map Slot.state) after

section

variable (agrees : c.Agrees []) (backed : c.Backed [])

include agrees backed

omit backed in
theorem waking {pid : Pid} {slot : Slot} (found : c.tasks.get? pid = some slot)
    (awake : ¬ slot.state ≠ .sleeping) :
    (c.setState pid .queued).Agrees [pid] ∧ (c.setState pid .queued).state? pid = some .queued ∧
      pid ∉ (c.setState pid .queued).queues.waiting ∧
      (c.Held → (c.setState pid .queued).Held) := by
  have asleep : c.state? pid = some .sleeping := by
    rw [state?, found, ← Decidable.not_not.mp awake]
    rfl
  refine ⟨setState_queued_agrees agrees pid, ?_, not_waiting_of_state? agrees asleep (by simp), ?_⟩
  · exact state?_setState_self asleep .queued
  · exact (setState_held pid .queued (by simp) fun held => held.free asleep (by simp)).mpr

theorem wake_carries (pid : Pid) (flags : UInt64) :
    c.Carries (c.wakeInquiries pid flags) (c.wake pid flags).2 := by
  unfold wake wakeInquiries
  cases found : c.tasks.get? pid with
  | none => exact (Serves.refl c).carries agrees backed
  | some slot =>
    dsimp only
    by_cases awake : slot.state ≠ .sleeping
    · simp only [if_pos awake]
      exact (Serves.refl c).carries agrees backed
    simp only [if_neg awake]
    obtain ⟨loosened, queued, absent, holds⟩ := waking agrees found awake
    have supported := setState_backed backed pid .queued (by simp)
    have cpus : (c.setState pid .queued).cpus = c.cpus := rfl
    generalize c.setState pid .queued = d at *
    cases active : d.policy with
    | none =>
      obtain ⟨e, made, serves, after⟩ := enqueueGlobal_serves loosened queued absent
      simp only [made]
      exact (serves.carries after supported).after cpus holds
    | some policy =>
      have places := chooseCpu_places loosened policy slot.task flags
      have waiting : ∀ cpu placed, (d.chooseCpu policy slot.task flags).1 = .ok (cpu, placed) →
          ∀ other ∈ placed, other ∈ (d.chooseCpu policy slot.task flags).2.queues.waiting :=
        fun _ _ => chooseCpu_waiting loosened
      have working : d.policy.isSome := by rw [active]; rfl
      have chosen := places.serves (i := ⟨d, policy, .selectCpu slot.task flags⟩) rfl
      refine Carries.after ?_ cpus holds
      dsimp only
      rcases outcome : d.chooseCpu policy slot.task flags with ⟨reason | ⟨cpu, placed⟩, e⟩
      · rw [outcome] at places chosen
        obtain ⟨serves, after⟩ := abort_serves (places.agrees loosened) (places.policy ▸ working) reason
        exact (chosen.trans_still serves).carries after supported
      · rw [outcome] at places waiting chosen
        have moved := mapTask_serves e pid fun task => { task with lastCpu := cpu }
        have placedAgrees := mapTask_agrees (places.agrees loosened) pid fun task =>
          { task with lastCpu := cpu }
        dsimp only
        split
        · rename_i member
          have waits := waiting _ _ rfl pid (by simpa using member)
          exact (chosen.trans_still moved).carries (placedAgrees.tighten waits) supported
        · have registered := contains_of_state? queued
          rw [← chosen.registered, ← moved.registered] at registered
          obtain ⟨serves, after⟩ := enqueueWith_serves placedAgrees (places.policy ▸ working)
            registered policy cpu 0
          exact ((chosen.trans_still moved).trans serves).carries after supported

theorem enqueue_carries (pid : Pid) (flags : UInt64) :
    c.Carries (c.enqueueInquiries pid flags) (c.enqueue pid flags).2 := by
  unfold enqueue enqueueInquiries
  cases found : c.tasks.get? pid with
  | none => exact (Serves.refl c).carries agrees backed
  | some slot =>
    dsimp only
    by_cases awake : slot.state ≠ .sleeping
    · simp only [if_pos awake]
      exact (Serves.refl c).carries agrees backed
    simp only [if_neg awake]
    obtain ⟨loosened, queued, absent, holds⟩ := waking agrees found awake
    have supported := setState_backed backed pid .queued (by simp)
    have cpus : (c.setState pid .queued).cpus = c.cpus := rfl
    generalize c.setState pid .queued = d at *
    cases active : d.policy with
    | none =>
      obtain ⟨e, made, serves, after⟩ := enqueueGlobal_serves loosened queued absent
      simp only [made]
      exact (serves.carries after supported).after cpus holds
    | some policy =>
      obtain ⟨serves, after⟩ := enqueueWith_serves loosened (by rw [active]; rfl)
        (contains_of_state? queued) policy slot.task.lastCpu flags
      exact (serves.carries after supported).after cpus holds

end

/-! Picking a task. -/

theorem takeNext_eq (sound : c.queues.WellFormed) (cpu : CpuId) :
    ∃ next q, c.takeNext cpu = (.ok next, { c with queues := q }) ∧
      c.queues.Shifts q [] next.toList ∧ c.queues.SameNumbers q := by
  have own := Queues.popLocal_shifts sound cpu
  have numbers : c.queues.SameNumbers (c.queues.popLocal cpu).2 := fun _ => rfl
  unfold takeNext
  split <;> rename_i outcome <;> rw [outcome] at own numbers
  · exact ⟨_, _, rfl, own, numbers⟩
  · obtain ⟨pids, found⟩ := Table.contains_iff_exists.mp sound.global
    have popped : c.queues.pop globalQueue =
        .ok (pids.head?, { c.queues with shared := c.queues.shared.modify globalQueue List.tail }) := by
      rw [Queues.pop, found]
    rw [popped]
    exact ⟨_, _, rfl, Queues.pop_shifts sound popped, Queues.pop_sameNumbers popped⟩

theorem taken_agrees (agrees : c.Agrees []) {q : Queues} {pid : Pid}
    (taken : c.queues.Shifts q [] [pid]) :
    ({ c with queues := q } : SchedClass ω).Agrees [pid] ∧ c.state? pid = some .queued ∧
      pid ∉ q.waiting := by
  have waiting := taken.waiting_lose
  obtain ⟨absent, distinct⟩ := List.nodup_cons.mp (waiting.nodup_iff.mp agrees.distinct)
  refine ⟨⟨taken.wellFormed, agrees.tasks, distinct, ?_, ?_⟩, ?_, absent⟩
  · intro other waits
    exact agrees.queued other (waiting.mem_iff.mpr (List.mem_cons_of_mem _ waits))
  · intro other queued
    have before := (agrees.waits other queued).resolve_right List.not_mem_nil
    rcases List.mem_cons.mp (waiting.mem_iff.mp before) with same | still
    · exact .inr (List.mem_singleton.mpr same)
    · exact .inl still
  · exact agrees.queued pid (waiting.mem_iff.mpr List.mem_cons_self)

theorem takeNext_spec (agrees : c.Agrees []) (cpu : CpuId) :
    ∃ next d, c.takeNext cpu = (.ok next, d) ∧ c.Serves [] d ∧ d.Agrees next.toList ∧
      ∀ pid, next = some pid → d.state? pid = some .queued ∧ pid ∉ d.queues.waiting := by
  obtain ⟨next, q, made, moved, _⟩ := takeNext_eq agrees.queues cpu
  refine ⟨next, _, made, .still rfl moved.cpus (fun _ => rfl) fun _ => rfl, ?_⟩
  cases next with
  | none => exact ⟨agrees.of_shifts moved c.memory, nofun⟩
  | some pid =>
    obtain ⟨loosened, queued, absent⟩ := taken_agrees agrees moved
    refine ⟨loosened, ?_⟩
    rintro other ⟨⟩
    exact ⟨queued, absent⟩

theorem state?_engage {cpu : CpuId} {pid : Pid} (queued : c.state? pid = some .queued) (other : Pid) :
    ((c.occupy cpu pid).engage cpu pid).state? other =
      if other = pid then some (.running cpu) else c.state? other := by
  simp only [state?, engage, occupy, Table.get?_modify]
  split
  · rename_i same
    obtain ⟨slot, found, _⟩ := Option.map_eq_some_iff.mp queued
    rw [same, found]
    rfl
  · rfl

theorem current?_engage {cpu : CpuId} (known : cpu < c.current.length) (pid : Pid) (other : CpuId) :
    ((c.occupy cpu pid).engage cpu pid).current? other =
      if other = cpu then some pid else c.current? other := by
  have set := current?_set c cpu (some pid) other
  rw [if_pos known] at set
  exact set

theorem engage_agrees {cpu : CpuId} {pid : Pid} (agrees : c.Agrees [pid])
    (queued : c.state? pid = some .queued) (absent : pid ∉ c.queues.waiting) :
    ((c.occupy cpu pid).engage cpu pid).Agrees [] := by
  have idled := Queues.setIdle_shifts agrees.queues cpu false
  refine ⟨idled.wellFormed, agrees.tasks.modify _ _, agrees.distinct, ?_, ?_⟩
  · intro other waits
    have apart : other ≠ pid := fun same => absent (same ▸ waits)
    exact (state?_engage queued other).trans ((if_neg apart).trans (agrees.queued other waits))
  · intro other waiting
    rw [state?_engage queued] at waiting
    split at waiting
    · cases waiting
    · rename_i apart
      exact .inl ((agrees.waits other waiting).resolve_right fun same =>
        apart (List.mem_singleton.mp same))

theorem apart_of_current {cpu place : CpuId} {pid : Pid} (free : c.current? cpu = none)
    (here : c.current? place = some pid) : place ≠ cpu := by
  intro same
  rw [same, free] at here
  cases here

section

variable {cpu : CpuId} {pid : Pid} (queued : c.state? pid = some .queued)
  (free : c.current? cpu = none) (known : cpu < c.current.length)

include queued free known

theorem engage_backed (backed : c.Backed []) : ((c.occupy cpu pid).engage cpu pid).Backed [] := by
  refine ⟨(List.length_set ..).trans backed.processors, fun other place runs => ?_⟩
  rw [state?_engage queued] at runs
  rw [current?_engage known]
  split at runs
  · rename_i same
    cases runs
    exact .inl (by rw [if_pos rfl, same])
  · have here := (backed.running other place runs).resolve_right List.not_mem_nil
    exact .inl ((if_neg (apart_of_current free here)).trans here)

theorem engage_held : ((c.occupy cpu pid).engage cpu pid).Held ↔ c.Held := by
  constructor
  · intro held place other here
    have apart := apart_of_current free here
    have runs := held place other ((current?_engage known pid place).trans ((if_neg apart).trans here))
    rw [state?_engage queued] at runs
    split at runs
    · exact absurd (RunState.running.inj (Option.some.inj runs)).symm apart
    · exact runs
  · intro held place other here
    rw [current?_engage known] at here
    split at here
    · rename_i same
      cases here
      exact (state?_engage queued pid).trans (by rw [if_pos rfl, same])
    · have runs := held place other here
      have apart : other ≠ pid := by
        intro same
        rw [same, queued] at runs
        cases runs
      exact (state?_engage queued other).trans ((if_neg apart).trans runs)

end

theorem engage_spec {cpu : CpuId} {pid : Pid} (agrees : c.Agrees [pid])
    (queued : c.state? pid = some .queued) (absent : pid ∉ c.queues.waiting)
    (free : c.current? cpu = none) (known : cpu < c.cpus) (backed : c.Backed []) :
    ((c.occupy cpu pid).engage cpu pid).Agrees [] ∧ ((c.occupy cpu pid).engage cpu pid).Backed [] ∧
      (((c.occupy cpu pid).engage cpu pid).Held ↔ c.Held) := by
  have processor : cpu < c.current.length := Nat.lt_of_lt_of_eq known backed.processors.symm
  exact ⟨engage_agrees agrees queued absent, engage_backed queued free processor backed,
    engage_held queued free processor⟩

theorem run_spec {cpu : CpuId} {pid : Pid} (agrees : c.Agrees [pid])
    (queued : c.state? pid = some .queued) (absent : pid ∉ c.queues.waiting)
    (free : c.current? cpu = none) (known : cpu < c.cpus) (backed : c.Backed []) :
    ∃ d, c.run cpu pid = (.ok (some pid), d) ∧ d.cpus = c.cpus ∧ d.Agrees [] ∧ d.Backed [] ∧
      (d.Held ↔ c.Held ∧ ∀ i ∈ c.runInquiries cpu pid, ¬ i.call.Displaces) := by
  obtain ⟨entered, supported, holds⟩ := engage_spec agrees queued absent free known backed
  obtain ⟨slot, found, _⟩ := Option.map_eq_some_iff.mp queued
  have there : (c.occupy cpu pid).tasks.get? pid = some slot := found
  obtain ⟨started, after⟩ := start_serves entered cpu (slot.task.startOn cpu)
  unfold run runInquiries
  simp only [there]
  exact ⟨_, rfl, started.cpus, after, started.backed supported, by rw [started.held_iff, holds]⟩

theorem pickNext_carries (agrees : c.Agrees []) (backed : c.Backed []) (cpu : CpuId) :
    c.Carries (c.pickNextInquiries cpu) (c.pickNext cpu).2 := by
  unfold pickNext pickNextInquiries
  by_cases unknown : c.cpus ≤ cpu
  · simp only [if_pos unknown]
    exact (Serves.refl c).carries agrees backed
  simp only [if_neg unknown]
  cases free : c.current? cpu with
  | some pid => exact (Serves.refl c).carries agrees backed
  | none =>
    obtain ⟨refilled, between⟩ := refill_serves agrees cpu
    obtain ⟨next, d, made, serves, loosened, taken⟩ := takeNext_spec between cpu
    have all := refilled.trans_still serves
    simp only [made]
    cases next with
    | none =>
      have idled := Queues.setIdle_shifts loosened.queues cpu true
      have same := all.trans_still (e := { d with queues := d.queues.setIdle cpu true })
        (.still rfl rfl (fun _ => rfl) fun _ => rfl)
      simpa using same.carries (loosened.of_shifts idled d.memory) backed
    | some pid =>
      obtain ⟨queued, absent⟩ := taken pid rfl
      have empty := (all.current? cpu).trans free
      have known := Nat.lt_of_not_le (all.cpus ▸ unknown)
      obtain ⟨e, ran, cpus, after, supported, holds⟩ :=
        run_spec loosened queued absent empty known (all.backed backed)
      simp only [ran]
      refine ⟨cpus.trans all.cpus, after, supported, fun held => ?_⟩
      rw [holds, all.held_iff, and_iff_right held, ← List.forall_mem_append]

/-! Stopping a task. -/

theorem vacate_spec {cpu : CpuId} {pid : Pid} (agrees : c.Agrees []) (backed : c.Backed [])
    (here : c.current? cpu = some pid) :
    (c.vacate cpu pid).Agrees [] ∧ (c.vacate cpu pid).Backed [(pid, cpu)] ∧
      (c.vacate cpu pid).current? cpu = none ∧ (c.Held → (c.vacate cpu pid).Held) := by
  have currents : ∀ other, (c.vacate cpu pid).current? other =
      if other = cpu then none else c.current? other := by
    intro other
    have set := current?_set c cpu none other
    rw [ite_self] at set
    exact set
  have idled := Queues.setIdle_shifts agrees.queues cpu true
  have same := agrees.of_shifts idled c.memory
  refine ⟨same.congr rfl same.tasks fun _ => rfl, ⟨?_, ?_⟩, ?_, ?_⟩
  · exact (List.length_set ..).trans (backed.processors.trans idled.cpus.symm)
  · intro other place runs
    have there := (backed.running other place runs).resolve_right List.not_mem_nil
    by_cases same : place = cpu
    · rw [same, here] at there
      cases there
      exact .inr (List.mem_singleton.mpr (by rw [same]))
    · exact .inl ((currents place).trans ((if_neg same).trans there))
  · exact (currents cpu).trans (if_pos rfl)
  · intro held place other there
    rw [currents] at there
    split at there
    · cases there
    · exact held place other there

theorem settleStopped_spec {cpu : CpuId} {pid : Pid} (agrees : c.Agrees [])
    (backed : c.Backed [(pid, cpu)]) (free : c.current? cpu = none) (runnable : Bool) :
    ∃ d, c.settleStopped cpu pid runnable = (.ok (some pid), d) ∧ d.cpus = c.cpus ∧ d.Agrees [] ∧
      d.Backed [] ∧ (d.Held ↔ c.Held ∧ ∀ i ∈ c.settleStoppedInquiries cpu pid runnable, ¬ i.call.Displaces) := by
  unfold settleStopped settleStoppedInquiries
  by_cases gone : c.state? pid ≠ some (.running cpu)
  · simp only [if_pos gone]
    exact ⟨_, rfl, rfl, agrees, backed.tighten gone, by simp⟩
  simp only [if_neg gone]
  have runs := Decidable.not_not.mp gone
  have absent := not_waiting_of_state? agrees runs (by simp)
  have unheld : c.Held → ∀ place, c.current? place ≠ some pid := fun held =>
    held.free_of_vacant runs free
  cases runnable with
  | false =>
    refine ⟨_, rfl, rfl, setState_agrees agrees absent (by simp), ?_, ?_⟩
    · exact (setState_backed backed pid .sleeping (by simp)).tighten (by simp [state?_setState_self runs])
    · simpa using setState_held pid .sleeping (by simp) unheld
  | true =>
    have loosened := setState_queued_agrees agrees pid
    have supported := (setState_backed backed pid .queued (by simp)).tighten
      (by simp [state?_setState_self runs])
    have holds := setState_held pid .queued (by simp) unheld
    have queued := state?_setState_self runs .queued
    have still : pid ∉ (c.setState pid .queued).queues.waiting := absent
    have cpus : (c.setState pid .queued).cpus = c.cpus := rfl
    generalize c.setState pid .queued = d at *
    simp only [Bool.not_true, Bool.false_eq_true, if_false]
    cases active : d.policy with
    | none =>
      obtain ⟨e, made, serves, after⟩ := enqueueGlobal_serves loosened queued still
      simp only [made]
      exact ⟨e, rfl, serves.cpus.trans cpus, after, serves.backed supported, by rw [serves.held_iff, holds]⟩
    | some policy =>
      obtain ⟨serves, after⟩ := enqueueWith_serves loosened (by rw [active]; rfl)
        (contains_of_state? queued) policy cpu 0
      exact ⟨_, rfl, serves.cpus.trans cpus, after, serves.backed supported, by rw [serves.held_iff, holds]⟩

theorem stop_carries (agrees : c.Agrees []) (backed : c.Backed []) (cpu : CpuId) (ran : Nanos)
    (runnable : Bool) : c.Carries (c.stopInquiries cpu ran runnable) (c.stop cpu ran runnable).2 := by
  unfold stop stopInquiries
  by_cases unknown : c.cpus ≤ cpu
  · simp only [if_pos unknown]
    exact (Serves.refl c).carries agrees backed
  simp only [if_neg unknown]
  cases here : c.current? cpu with
  | none => exact (Serves.refl c).carries agrees backed
  | some pid =>
    obtain ⟨vacant, supported, free, holds⟩ := vacate_spec agrees backed here
    have unchanged : (c.vacate cpu pid).cpus = c.cpus := rfl
    refine Carries.after ?_ unchanged holds
    dsimp only
    generalize c.vacate cpu pid = d at *
    cases found : d.tasks.get? pid with
    | none =>
      have unregistered : d.state? pid ≠ some (.running cpu) := by simp [state?, found]
      exact (Serves.refl d).carries vacant (supported.tighten unregistered)
    | some slot =>
      dsimp only
      have charged := mapTask_serves d pid fun _ => slot.task.charge ran
      have same := mapTask_agrees vacant pid fun _ => slot.task.charge ran
      obtain ⟨halted, between⟩ := halt_serves same cpu (slot.task.charge ran) runnable
      have all := charged.after_still halted
      obtain ⟨e, settled, cpus, after, backs, iff⟩ := settleStopped_spec between (all.backed supported)
        ((all.current? cpu).trans free) runnable
      simp only [settled]
      refine ⟨cpus.trans all.cpus, after, backs, fun held => ?_⟩
      rw [iff, all.held_iff, and_iff_right held, ← List.forall_mem_append]

/-! Runs. -/

/-- Whatever an operation is and whatever the policy does in it, the queues agree with the tasks
afterwards. -/
theorem step_carries (agrees : c.Agrees []) (backed : c.Backed []) (op : Operation ω) :
    c.Carries (c.inquiries op) (c.step op) := by
  cases op with
  | install policy => exact install_carries agrees backed policy
  | uninstall => exact uninstall_carries agrees backed
  | addTask task => exact addTask_carries agrees backed task
  | removeTask pid => exact removeTask_carries agrees backed pid
  | wake pid flags => exact wake_carries agrees backed pid flags
  | enqueue pid flags => exact enqueue_carries agrees backed pid flags
  | pickNext cpu => exact pickNext_carries agrees backed cpu
  | stop cpu ran runnable => exact stop_carries agrees backed cpu ran runnable
  | advanceClock delta =>
    have same : c.Serves [] (c.step (.advanceClock delta)) :=
      .still rfl rfl (fun _ => rfl) fun _ => rfl
    exact same.carries (agrees.congr rfl agrees.tasks fun _ => rfl) backed
  | setMemory memory =>
    have same : c.Serves [] (c.step (.setMemory memory)) :=
      .still rfl rfl (fun _ => rfl) fun _ => rfl
    exact same.carries (agrees.congr rfl agrees.tasks fun _ => rfl) backed

theorem steps_agree (agrees : c.Agrees []) (backed : c.Backed []) (ops : List (Operation ω)) :
    (c.steps ops).Agrees [] ∧ (c.steps ops).Backed [] := by
  induction ops generalizing c with
  | nil => exact ⟨agrees, backed⟩
  | cons op rest ih =>
    have carries := step_carries agrees backed op
    exact ih carries.agrees carries.backed

theorem new_agrees (cpus : Nat) (memory : ω) :
    (new cpus memory).Agrees [] ∧ (new cpus memory).Backed [] ∧ (new cpus memory).Held := by
  have nobody : (new cpus memory).queues.waiting = [] := Queues.waiting_new _
  refine ⟨⟨Queues.wellFormed_new _, Table.ordered_empty, ?_, ?_, ?_⟩, ⟨?_, ?_⟩, ?_⟩
  · exact nobody ▸ List.nodup_nil
  · exact fun pid waits => absurd (nobody ▸ waits) List.not_mem_nil
  · intro pid queued
    cases queued
  · simp [new, SchedClass.cpus, Queues.cpus, Queues.new]
  · intro pid cpu runs
    cases runs
  · intro cpu pid here
    simp only [current?, new, List.getElem?_replicate] at here
    split at here <;> cases here

theorem steps_cpus (agrees : c.Agrees []) (backed : c.Backed []) (ops : List (Operation ω)) :
    (c.steps ops).cpus = c.cpus := by
  induction ops generalizing c with
  | nil => rfl
  | cons op rest ih =>
    have carries := step_carries agrees backed op
    exact (ih carries.agrees carries.backed).trans carries.cpus

/-- The queues hold exactly the tasks that are to wait, each once: after every run of operations, for
any policies. -/
theorem waiting_exactly_queued (cpus : Nat) (memory : ω) (ops : List (Operation ω)) :
    let c := (new cpus memory).steps ops
    c.queues.waiting.Nodup ∧ ∀ pid, pid ∈ c.queues.waiting ↔ c.state? pid = some .queued := by
  obtain ⟨agrees, backed, _⟩ := new_agrees cpus memory
  obtain ⟨agrees, _⟩ := steps_agree agrees backed ops
  exact ⟨agrees.distinct, fun pid =>
    ⟨agrees.queued pid, fun queued => (agrees.waits pid queued).resolve_right List.not_mem_nil⟩⟩

end LoadableSched.SchedClass
