import LoadableSched.Proofs.Class.Conforming

/-!
Runs in which only policies that keep the rules are installed: none is ever removed by the class, and
no operation on a task or a processor that exists fails.
-/

namespace LoadableSched.SchedClass

variable {ω : Type} {c d e : SchedClass ω} {loose : List Pid}

structure Healthy (c : SchedClass ω) : Prop where
  held : c.Held
  exit : c.exit = none
  recorded : c.Recorded
  positive : 0 < c.cpus
  stocked : c.Stocked

namespace Healthy

theorem keeps (healthy : c.Healthy) (h : c.Keeps d) : d.Healthy where
  held cpu pid here := by
    rw [current?, h.current] at here
    exact (h.states pid).trans (healthy.held cpu pid here)
  exit := h.exit.trans healthy.exit
  recorded := h.recorded healthy.recorded
  positive := h.cpus ▸ healthy.positive
  stocked := h.stocked healthy.stocked

theorem setState (healthy : c.Healthy) {pid : Pid} {state : RunState}
    (held : (c.setState pid state).Held) : (c.setState pid state).Healthy where
  held := held
  exit := healthy.exit
  recorded := healthy.recorded.modify pid _ fun slot found => healthy.recorded pid slot found
  positive := healthy.positive
  stocked := healthy.stocked.of_sameNumbers rfl fun _ => rfl

end Healthy

/-- From `c` to `d` the policy stays, for good reason. -/
structure Stands (c d : SchedClass ω) : Prop where
  healthy : d.Healthy
  policy : d.policy = c.policy

theorem Stands.keeps (h : c.Stands d) (later : d.Keeps e) : c.Stands e :=
  ⟨h.healthy.keeps later, later.policy.trans h.policy⟩

theorem setQueues_keeps {q : Queues} (cpus : q.cpus = c.cpus) (numbers : c.queues.SameNumbers q) :
    c.Keeps { c with queues := q } where
  policy := rfl
  exit := rfl
  cpus := cpus
  current := rfl
  states _ := rfl
  recorded recorded pid slot found :=
    ⟨(recorded pid slot found).1, Nat.lt_of_lt_of_eq (recorded pid slot found).2 cpus.symm⟩
  supplied supplied := ⟨supplied.slices, supplied.enables⟩
  stocked stocked := stocked.of_sameNumbers rfl numbers
  covers := numbers.covers

theorem enqueueGlobal_keeps {pid : Pid} (agrees : c.Agrees [pid])
    (queued : c.state? pid = some .queued) (absent : pid ∉ c.queues.waiting) :
    ∃ d, c.enqueueGlobal pid = .ok d ∧ c.Keeps d := by
  obtain ⟨d, made, places, _⟩ := enqueueGlobal_places agrees (contains_of_state? queued) absent
  obtain ⟨e, same, serves, _⟩ := enqueueGlobal_serves agrees queued absent
  cases Except.ok.inj (made.symm.trans same)
  have numbers := enqueueGlobal_sameNumbers made
  refine ⟨d, made, places.policy, places.exit, places.cpus, places.current, ?_, ?_, ?_, ?_, ?_⟩
  · intro other
    exact (serves.settled other).resolve_right fun ⟨_, _, member, _⟩ => absurd member List.not_mem_nil
  · exact fun recorded => recorded.of_follows places.toFollows
  · exact fun supplied => supplied.of_follows places.toFollows places.policy
  · exact fun stocked => stocked.of_sameNumbers places.policy numbers
  · exact numbers.covers

theorem requeueOrphans_healthy (agrees : c.Agrees loose) (healthy : c.Healthy) :
    (requeueOrphans { c with policy := none }).Healthy ∧
      (requeueOrphans { c with policy := none }).policy = none := by
  have removed : ({ c with policy := none } : SchedClass ω).Agrees loose :=
    agrees.congr rfl agrees.tasks fun _ => rfl
  have follows := requeueOrphans_follows removed
  have states := requeueOrphans_state? removed
  have policy := requeueOrphans_policy removed
  refine ⟨⟨?_, (requeueOrphans_exit removed).trans healthy.exit, ?_, ?_, ?_, ?_⟩, policy⟩
  · intro cpu pid here
    rw [follows.current?] at here
    exact (states pid).trans (healthy.held cpu pid here)
  · exact Recorded.of_follows (c := { c with policy := none }) healthy.recorded follows
  · exact follows.cpus ▸ healthy.positive
  · exact fun _ => requeueOrphans_onlyBuiltin _
  · intro p active
    rw [policy] at active
    cases active

theorem run_keeps {cpu : CpuId} {pid : Pid} (agrees : c.Agrees [pid]) (stocked : c.Stocked)
    (queued : c.state? pid = some .queued) (absent : pid ∉ c.queues.waiting)
    (free : c.current? cpu = none) (known : cpu < c.cpus) (backed : c.Backed []) :
    ((c.occupy cpu pid).engage cpu pid).Keeps (c.run cpu pid).2 ∧
      (c.run cpu pid).1 = .ok (some pid) := by
  obtain ⟨entered, _⟩ := engage_spec agrees queued absent free known backed
  obtain ⟨slot, found, _⟩ := Option.map_eq_some_iff.mp queued
  have there : (c.occupy cpu pid).tasks.get? pid = some slot := found
  unfold run
  simp only [there]
  exact ⟨start_keeps entered (stocked.of_sameNumbers rfl fun _ => rfl) cpu _, trivial⟩

theorem run_stands {cpu : CpuId} {pid : Pid} (agrees : c.Agrees [pid]) (healthy : c.Healthy)
    (queued : c.state? pid = some .queued) (absent : pid ∉ c.queues.waiting)
    (free : c.current? cpu = none) (known : cpu < c.cpus) (backed : c.Backed []) :
    c.Stands (c.run cpu pid).2 ∧ (c.run cpu pid).1 = .ok (some pid) := by
  obtain ⟨_, _, holds⟩ := engage_spec agrees queued absent free known backed
  have recorded : ((c.occupy cpu pid).engage cpu pid).Recorded :=
    Recorded.modify (c := c.occupy cpu pid) healthy.recorded pid _ fun slot found =>
      ⟨(healthy.recorded pid slot found).1, known⟩
  have stands : c.Stands ((c.occupy cpu pid).engage cpu pid) :=
    ⟨⟨holds.mpr healthy.held, healthy.exit, recorded, healthy.positive,
      healthy.stocked.of_sameNumbers rfl fun _ => rfl⟩, rfl⟩
  obtain ⟨keeps, result⟩ := run_keeps agrees healthy.stocked queued absent free known backed
  exact ⟨stands.keeps keeps, result⟩

theorem settleStopped_keeps {cpu : CpuId} {pid : Pid} (agrees : c.Agrees []) (healthy : c.Healthy)
    (runs : c.state? pid = some (.running cpu)) (runnable : Bool) :
    (c.setState pid (if runnable then .queued else .sleeping)).Keeps
      (c.settleStopped cpu pid runnable).2 := by
  have absent := not_waiting_of_state? agrees runs (by simp)
  unfold settleStopped
  simp only [runs, ne_eq, not_true, if_false]
  cases runnable with
  | false => exact .refl _
  | true =>
    have loosened := setState_queued_agrees agrees pid
    have queued := state?_setState_self runs .queued
    have stocked : (c.setState pid .queued).Stocked :=
      healthy.stocked.of_sameNumbers rfl fun _ => rfl
    have recorded : (c.setState pid .queued).Recorded :=
      healthy.recorded.modify pid _ fun slot found => healthy.recorded pid slot found
    have still : pid ∉ (c.setState pid .queued).queues.waiting := absent
    simp only [if_true, Bool.not_true, Bool.false_eq_true, if_false]
    generalize c.setState pid .queued = d at *
    cases active : d.policy with
    | none =>
      obtain ⟨e, made, keeps⟩ := enqueueGlobal_keeps loosened queued still
      simp only [made]
      exact keeps
    | some policy =>
      obtain ⟨own, conforms, stocks⟩ := stocked.conforms policy active
      exact enqueueWith_keeps loosened active conforms stocks recorded queued still cpu 0

theorem settleStopped_stands {cpu : CpuId} {pid : Pid} (agrees : c.Agrees []) (healthy : c.Healthy)
    (backed : c.Backed [(pid, cpu)]) (free : c.current? cpu = none) (runnable : Bool) :
    c.Stands (c.settleStopped cpu pid runnable).2 ∧
      (c.settleStopped cpu pid runnable).1 = .ok (some pid) := by
  obtain ⟨d, settled, _⟩ := settleStopped_spec agrees backed free runnable
  refine ⟨?_, by rw [settled]⟩
  by_cases runs : c.state? pid = some (.running cpu)
  · have held := (setState_held pid (if runnable then .queued else .sleeping) (by split <;> simp)
      fun _ => healthy.held.free_of_vacant runs free).mpr healthy.held
    have stands : c.Stands (c.setState pid (if runnable then .queued else .sleeping)) :=
      ⟨healthy.setState held, rfl⟩
    exact stands.keeps (settleStopped_keeps agrees healthy runs runnable)
  · unfold settleStopped
    simp only [ne_eq, runs, not_false_eq_true, if_true]
    exact ⟨healthy, rfl⟩

section

variable (agrees : c.Agrees []) (healthy : c.Healthy)

include agrees healthy

omit agrees healthy in
theorem introduce_accepted {policy : Policy ω} (zero : (c.invoke 0 policy.init).1 = 0)
    (asks : (c.invoke 0 policy.init).2.Asks []) :
    c.introduce policy = (.ok (), c.resume (c.invoke 0 policy.init).2) := by
  simp only [introduce, call_eq asks, zero, ne_eq, not_true, if_false, place]

theorem install_introduces {policy : Policy ω} {own : List QueueId} (free : c.policy = none)
    (conforms : policy.Conforms own) :
    ∃ d, c.install policy = (.ok (), { d.tasks.keys.foldl enable d with exit := none }) ∧
      ({ c with policy := some policy } : SchedClass ω).Keeps d ∧ d.Agrees [] ∧ d.Stocked := by
  let entered : SchedClass ω := { c with policy := some policy }
  have same : entered.Agrees [] := agrees.congr rfl agrees.tasks fun _ => rfl
  obtain ⟨code, asks, stocks⟩ :=
    conforms.init c.clock c.queues c.memory (healthy.stocked.vacant free)
  have introduced := introduce_accepted (c := entered) code asks
  refine ⟨entered.resume (entered.invoke 0 policy.init).2, ?_, called_keeps same (c := entered) rfl 0 policy.init,
    (called_agrees same 0 policy.init).1, nofun, ?_⟩
  · unfold install
    simp only [free]
    rw [introduced]
  · rintro _ ⟨⟩
    exact ⟨own, conforms, stocks⟩

theorem install_stands {policy : Policy ω} {own : List QueueId} (free : c.policy = none)
    (conforms : policy.Conforms own) :
    (c.install policy).1 = .ok () ∧ (c.install policy).2.Healthy ∧
      (c.install policy).2.policy = some policy := by
  obtain ⟨d, installed, called, after, stocked⟩ := install_introduces agrees healthy free conforms
  have entered : d.Healthy :=
    { held := fun cpu pid here => by
        rw [current?, called.current] at here
        exact (called.states pid).trans (healthy.held cpu pid here)
      exit := called.exit.trans healthy.exit
      recorded := called.recorded healthy.recorded
      positive := called.cpus ▸ healthy.positive
      stocked }
  have all := enableAll_keeps after stocked entered.recorded d.tasks.keys
  have result := entered.keeps all
  have kept := result.stocked
  rw [installed]
  exact ⟨rfl, ⟨result.held, rfl, result.recorded, result.positive, ⟨kept.vacant, kept.conforms⟩⟩,
    all.policy.trans called.policy⟩

theorem uninstall_stands : c.uninstall.2.Healthy ∧ c.uninstall.2.policy = none := by
  unfold uninstall
  cases active : c.policy with
  | none => exact ⟨healthy, active⟩
  | some policy => exact requeueOrphans_healthy agrees healthy

omit agrees in
theorem erase_stands {pid : Pid} {q : Queues} {current : List (Option Pid)} (cpus : q.cpus = c.cpus)
    (numbers : c.queues.SameNumbers q)
    (held : Held { c with tasks := c.tasks.erase pid, queues := q, current }) :
    c.Stands { c with tasks := c.tasks.erase pid, queues := q, current } := by
  refine ⟨⟨held, healthy.exit, ?_, ?_, healthy.stocked.of_sameNumbers rfl numbers⟩, rfl⟩
  · intro other slot found
    simp only [Table.get?_erase] at found
    split at found
    · cases found
    · obtain ⟨number, known⟩ := healthy.recorded other slot found
      exact ⟨number, Nat.lt_of_lt_of_eq known cpus.symm⟩
  · exact Nat.lt_of_lt_of_eq healthy.positive cpus.symm

theorem removeTask_stands (backed : c.Backed []) (pid : Pid) :
    c.Stands (c.removeTask pid).2 ∧
      (c.tasks.contains pid = true → (c.removeTask pid).1 = .ok ()) := by
  have carries := removeTask_carries agrees backed pid
  have held := (carries.held healthy.held).mpr fun _ member => absurd member List.not_mem_nil
  unfold removeTask at held ⊢
  cases found : c.tasks.get? pid with
  | none => exact ⟨⟨healthy, rfl⟩, by simp [Table.contains_eq, found]⟩
  | some slot =>
    rw [found] at held
    dsimp only at held ⊢
    split at held
    · exact ⟨erase_stands healthy rfl (fun _ => rfl) held, fun _ => rfl⟩
    · have moved := Queues.remove_shifts agrees.queues pid
      exact ⟨erase_stands healthy moved.cpus (Queues.remove_sameNumbers pid) held, fun _ => rfl⟩
    · exact ⟨erase_stands healthy rfl (fun _ => rfl) held, fun _ => rfl⟩

theorem wake_keeps {pid : Pid} (asleep : c.state? pid = some .sleeping) (flags : UInt64) :
    (c.wake pid flags).1 = .ok () ∧ (c.setState pid .queued).Keeps (c.wake pid flags).2 := by
  obtain ⟨slot, found, state⟩ := Option.map_eq_some_iff.mp asleep
  have awake : ¬ slot.state ≠ .sleeping := not_not_intro state
  unfold wake
  simp only [found, if_neg awake]
  obtain ⟨loosened, queued, absent, holds⟩ := waking agrees found awake
  have entered : (c.setState pid .queued).Healthy := healthy.setState (holds healthy.held)
  obtain ⟨number, known⟩ := healthy.recorded pid slot found
  have cpus : (c.setState pid .queued).cpus = c.cpus := rfl
  generalize c.setState pid .queued = d at *
  cases active : d.policy with
  | none =>
    obtain ⟨e, made, keeps⟩ := enqueueGlobal_keeps loosened queued absent
    simp only [made]
    exact ⟨trivial, keeps⟩
  | some policy =>
    obtain ⟨own, conforms, stocks⟩ := entered.stocked.conforms policy active
    obtain ⟨cpu, placed, e, chosen, valid, keeps, either⟩ := chooseCpu_keeps loosened active conforms
      stocks number (cpus ▸ known) queued absent flags
    have moved : e.Keeps (e.mapTask pid fun task => { task with lastCpu := cpu }) :=
      mapTask_keeps (fun recorded slot found =>
        ⟨(recorded pid slot found).1, Nat.lt_of_lt_of_eq valid keeps.cpus.symm⟩)
        fun supplied cpu slot => supplied.slices cpu pid slot
    have places := chooseCpu_places loosened policy slot.task flags
    rw [chosen] at places
    have stillLoose := mapTask_agrees (places.agrees loosened) pid fun task =>
      { task with lastCpu := cpu }
    have all := keeps.trans moved
    simp only [chosen]
    rcases either with one | ⟨none, still⟩
    · simpa [one] using all
    · have enqueued := enqueueWith_keeps stillLoose (all.policy.trans active) conforms
        (all.stocks stocks) (all.recorded entered.recorded)
        ((all.states pid).trans queued) still cpu 0
      simpa [none] using all.trans enqueued

theorem wake_stands (pid : Pid) (flags : UInt64) :
    c.Stands (c.wake pid flags).2 ∧
      (c.tasks.contains pid = true → (c.wake pid flags).1 = .ok ()) := by
  by_cases asleep : c.state? pid = some .sleeping
  · obtain ⟨slot, found, state⟩ := Option.map_eq_some_iff.mp asleep
    obtain ⟨_, _, _, holds⟩ := waking agrees found (not_not_intro state)
    have stands : c.Stands (c.setState pid .queued) := ⟨healthy.setState (holds healthy.held), rfl⟩
    obtain ⟨result, keeps⟩ := wake_keeps agrees healthy asleep flags
    exact ⟨stands.keeps keeps, fun _ => result⟩
  · unfold wake
    cases found : c.tasks.get? pid with
    | none => exact ⟨⟨healthy, rfl⟩, by simp [Table.contains_eq, found]⟩
    | some slot =>
      have awake : slot.state ≠ .sleeping := fun state => asleep (by rw [state?, found, ← state]; rfl)
      simp only [if_pos awake]
      exact ⟨⟨healthy, rfl⟩, fun _ => trivial⟩

theorem enqueue_keeps {pid : Pid} (asleep : c.state? pid = some .sleeping) (flags : UInt64) :
    (c.enqueue pid flags).1 = .ok () ∧ (c.setState pid .queued).Keeps (c.enqueue pid flags).2 := by
  obtain ⟨slot, found, state⟩ := Option.map_eq_some_iff.mp asleep
  have awake : ¬ slot.state ≠ .sleeping := not_not_intro state
  unfold enqueue
  simp only [found, if_neg awake]
  obtain ⟨loosened, queued, absent, holds⟩ := waking agrees found awake
  have entered : (c.setState pid .queued).Healthy := healthy.setState (holds healthy.held)
  generalize c.setState pid .queued = d at *
  cases active : d.policy with
  | none =>
    obtain ⟨e, made, keeps⟩ := enqueueGlobal_keeps loosened queued absent
    simp only [made]
    exact ⟨trivial, keeps⟩
  | some policy =>
    obtain ⟨own, conforms, stocks⟩ := entered.stocked.conforms policy active
    exact ⟨rfl, enqueueWith_keeps loosened active conforms stocks entered.recorded queued absent
      slot.task.lastCpu flags⟩

theorem enqueue_stands (pid : Pid) (flags : UInt64) :
    c.Stands (c.enqueue pid flags).2 ∧
      (c.tasks.contains pid = true → (c.enqueue pid flags).1 = .ok ()) := by
  by_cases asleep : c.state? pid = some .sleeping
  · obtain ⟨slot, found, state⟩ := Option.map_eq_some_iff.mp asleep
    obtain ⟨_, _, _, holds⟩ := waking agrees found (not_not_intro state)
    have stands : c.Stands (c.setState pid .queued) := ⟨healthy.setState (holds healthy.held), rfl⟩
    obtain ⟨result, keeps⟩ := enqueue_keeps agrees healthy asleep flags
    exact ⟨stands.keeps keeps, fun _ => result⟩
  · unfold enqueue
    cases found : c.tasks.get? pid with
    | none => exact ⟨⟨healthy, rfl⟩, by simp [Table.contains_eq, found]⟩
    | some slot =>
      have awake : slot.state ≠ .sleeping := fun state => asleep (by rw [state?, found, ← state]; rfl)
      simp only [if_pos awake]
      exact ⟨⟨healthy, rfl⟩, fun _ => trivial⟩

theorem addTask_keeps (backed : c.Backed []) {task : Task} (fresh : c.tasks.contains task.pid ≠ true) :
    (c.addTask task).1 = .ok () ∧ (c.register task).Keeps (c.addTask task).2 := by
  obtain ⟨added, _, _⟩ := register_spec agrees backed fresh
  unfold addTask
  simp only [if_neg fresh]
  exact ⟨trivial, enable_keeps added (healthy.stocked.of_sameNumbers rfl fun _ => rfl)
    (healthy.recorded.register healthy.positive task) task.pid⟩

theorem addTask_stands (backed : c.Backed []) (task : Task) : c.Stands (c.addTask task).2 := by
  by_cases known : c.tasks.contains task.pid = true
  · unfold addTask
    simp only [if_pos known]
    exact ⟨healthy, rfl⟩
  · obtain ⟨_, _, holds⟩ := register_spec agrees backed known
    have stands : c.Stands (c.register task) :=
      ⟨⟨holds healthy.held, healthy.exit, healthy.recorded.register healthy.positive task, healthy.positive,
        healthy.stocked.of_sameNumbers rfl fun _ => rfl⟩, rfl⟩
    exact stands.keeps (addTask_keeps agrees healthy backed known).2

omit healthy in
theorem pickNext_keeps (stocked : c.Stocked) (backed : c.Backed []) {cpu : CpuId}
    (known : cpu < c.cpus) (free : c.current? cpu = none) :
    (∃ d, c.pickNext cpu = (.ok none, d) ∧ c.Keeps d) ∨
      ∃ pid d, c.pickNext cpu = d.run cpu pid ∧ c.Keeps d ∧ d.Agrees [pid] ∧
        d.state? pid = some .queued ∧ pid ∉ d.queues.waiting ∧ d.current? cpu = none ∧
        cpu < d.cpus ∧ d.Backed [] := by
  have refilled := refill_keeps agrees stocked known
  obtain ⟨serves, between⟩ := refill_serves agrees cpu
  obtain ⟨next, q, made, moved, numbers⟩ := takeNext_eq between.queues cpu
  have taken : c.Keeps { c.refill cpu with queues := q } :=
    refilled.trans (setQueues_keeps moved.cpus numbers)
  unfold pickNext
  simp only [if_neg (Nat.not_le_of_lt known), free, made]
  cases next with
  | none =>
    exact .inl ⟨_, rfl, taken.trans (setQueues_keeps (q := q.setIdle cpu true) rfl fun _ => rfl)⟩
  | some pid =>
    obtain ⟨loosened, queued, absent⟩ := taken_agrees between moved
    have same : c.Serves (c.refillInquiries cpu) { c.refill cpu with queues := q } :=
      serves.trans_still (.still rfl moved.cpus (fun _ => rfl) fun _ => rfl)
    exact .inr ⟨pid, _, rfl, taken, loosened, queued, absent, (serves.current? cpu).trans free,
      Nat.lt_of_lt_of_eq known same.cpus.symm, same.backed backed⟩

theorem pickNext_stands (backed : c.Backed []) (cpu : CpuId) :
    c.Stands (c.pickNext cpu).2 ∧ (cpu < c.cpus → ∃ next, (c.pickNext cpu).1 = .ok next) := by
  by_cases unknown : c.cpus ≤ cpu
  · simp only [pickNext, if_pos unknown]
    exact ⟨⟨healthy, rfl⟩, fun known => absurd unknown (Nat.not_le_of_lt known)⟩
  cases free : c.current? cpu with
  | some pid =>
    simp only [pickNext, if_neg unknown, free]
    exact ⟨⟨healthy, rfl⟩, fun _ => ⟨_, rfl⟩⟩
  | none =>
    have here : c.Stands c := ⟨healthy, rfl⟩
    rcases pickNext_keeps agrees healthy.stocked backed (Nat.lt_of_not_le unknown) free with
      ⟨d, idle, keeps⟩ | ⟨pid, d, ran, keeps, loosened, queued, absent, empty, known, supported⟩
    · rw [idle]
      exact ⟨here.keeps keeps, fun _ => ⟨_, rfl⟩⟩
    · have stands := here.keeps keeps
      obtain ⟨after, result⟩ := run_stands loosened stands.healthy queued absent empty known supported
      rw [ran]
      exact ⟨⟨after.healthy, after.policy.trans stands.policy⟩, fun _ => ⟨_, result⟩⟩

theorem stop_keeps (backed : c.Backed []) {cpu : CpuId} {pid : Pid} (here : c.current? cpu = some pid)
    (ran : Nanos) (runnable : Bool) :
    ∃ d, c.stop cpu ran runnable = d.settleStopped cpu pid runnable ∧ (c.vacate cpu pid).Keeps d ∧
      d.Agrees [] ∧ d.Healthy ∧ d.Backed [(pid, cpu)] ∧ d.current? cpu = none := by
  have known : ¬ c.cpus ≤ cpu := Nat.not_le_of_lt (backed.known here)
  obtain ⟨vacant, supported, free, holds⟩ := vacate_spec agrees backed here
  obtain ⟨slot, found, state⟩ := Option.map_eq_some_iff.mp (healthy.held cpu pid here)
  have left : (c.vacate cpu pid).Healthy :=
    ⟨holds healthy.held, healthy.exit, healthy.recorded, healthy.positive,
      healthy.stocked.of_sameNumbers rfl fun _ => rfl⟩
  have there : (c.vacate cpu pid).tasks.get? pid = some slot := found
  unfold stop
  simp only [if_neg known, here, there]
  generalize c.vacate cpu pid = d at *
  have charged : d.Keeps (d.mapTask pid fun _ => slot.task.charge ran) := by
    refine mapTask_keeps (fun recorded slot' found' => ?_) fun _ other slot' here' found' runs => ?_
    · cases Option.some.inj (found'.symm.trans there)
      exact recorded pid slot there
    · -- The processor that the task runs on has been left.
      cases Option.some.inj (found'.symm.trans there)
      cases runs.symm.trans state
      cases free.symm.trans here'
  have same := mapTask_serves d pid fun _ => slot.task.charge ran
  have between := mapTask_agrees vacant pid fun _ => slot.task.charge ran
  have halted := halt_keeps between (left.keeps charged).stocked cpu (slot.task.charge ran) runnable
  obtain ⟨serves, after⟩ := halt_serves between cpu (slot.task.charge ran) runnable
  have all := same.after_still serves
  exact ⟨_, rfl, charged.trans halted, after, left.keeps (charged.trans halted), all.backed supported,
    (all.current? cpu).trans free⟩

theorem stop_stands (backed : c.Backed []) (cpu : CpuId) (ran : Nanos) (runnable : Bool) :
    c.Stands (c.stop cpu ran runnable).2 ∧
      (cpu < c.cpus → ∃ stopped, (c.stop cpu ran runnable).1 = .ok stopped) := by
  cases here : c.current? cpu with
  | none =>
    unfold stop
    split
    · rename_i unknown
      exact ⟨⟨healthy, rfl⟩, fun known => absurd unknown (Nat.not_le_of_lt known)⟩
    · simp only [here]
      exact ⟨⟨healthy, rfl⟩, fun _ => ⟨_, rfl⟩⟩
  | some pid =>
    obtain ⟨d, reached, keeps, after, left, supported, free⟩ :=
      stop_keeps agrees healthy backed here ran runnable
    obtain ⟨settled, result⟩ := settleStopped_stands after left supported free runnable
    rw [reached]
    exact ⟨⟨settled.healthy, settled.policy.trans keeps.policy⟩, fun _ => ⟨_, result⟩⟩

end

def Operation.Conforms : Operation ω → Prop
  | .install policy => ∃ own, policy.Conforms own
  | _ => True

theorem install_busy {active policy : Policy ω} (busy : c.policy = some active) :
    c.install policy = (.error (.busy active.name), c) := by
  unfold install
  simp only [busy]

theorem step_spares (agrees : c.Agrees []) (backed : c.Backed []) (healthy : c.Healthy)
    {op : Operation ω} (spares : op.SparesPolicy) : c.Stands (c.step op) := by
  cases op with
  | install policy => exact spares.elim
  | uninstall => exact spares.elim
  | addTask task => exact addTask_stands agrees healthy backed task
  | removeTask pid => exact (removeTask_stands agrees healthy backed pid).1
  | wake pid flags => exact (wake_stands agrees healthy pid flags).1
  | enqueue pid flags => exact (enqueue_stands agrees healthy pid flags).1
  | pickNext cpu => exact (pickNext_stands agrees healthy backed cpu).1
  | stop cpu ran runnable => exact (stop_stands agrees healthy backed cpu ran runnable).1
  | advanceClock delta =>
    exact ⟨⟨healthy.held, healthy.exit, healthy.recorded, healthy.positive,
      healthy.stocked.of_sameNumbers rfl fun _ => rfl⟩, rfl⟩
  | setMemory memory =>
    exact ⟨⟨healthy.held, healthy.exit, healthy.recorded, healthy.positive,
      healthy.stocked.of_sameNumbers rfl fun _ => rfl⟩, rfl⟩

theorem step_stands (agrees : c.Agrees []) (backed : c.Backed []) (healthy : c.Healthy)
    {op : Operation ω} (conforms : op.Conforms) :
    (c.step op).Healthy ∧ ∀ policy, c.policy = some policy → op ≠ .uninstall →
      (c.step op).policy = some policy := by
  have spared : ∀ op : Operation ω, op.SparesPolicy → (c.step op).Healthy ∧
      ∀ policy, c.policy = some policy → op ≠ .uninstall → (c.step op).policy = some policy := by
    intro op spares
    have stands := step_spares agrees backed healthy spares
    exact ⟨stands.healthy, fun policy active _ => stands.policy.trans active⟩
  cases op with
  | install policy =>
    cases active : c.policy with
    | some current =>
      have same : c.step (.install policy) = c := congrArg Prod.snd (install_busy active)
      rw [same]
      exact ⟨healthy, fun _ present _ => active.trans present⟩
    | none =>
      obtain ⟨own, conforms⟩ := conforms
      refine ⟨(install_stands agrees healthy active conforms).2.1, ?_⟩
      intro current impossible
      cases impossible
  | uninstall =>
    exact ⟨(uninstall_stands agrees healthy).1, fun _ _ other => absurd rfl other⟩
  | addTask | removeTask | wake | enqueue | pickNext | stop | advanceClock | setMemory =>
    exact spared _ trivial

theorem steps_stand (agrees : c.Agrees []) (backed : c.Backed []) (healthy : c.Healthy)
    {ops : List (Operation ω)} (conforms : ∀ op ∈ ops, op.Conforms) : (c.steps ops).Healthy := by
  induction ops generalizing c with
  | nil => exact healthy
  | cons op rest ih =>
    have carries := step_carries agrees backed op
    have stands := step_stands agrees backed healthy (conforms op List.mem_cons_self)
    exact ih carries.agrees carries.backed stands.1 fun later member =>
      conforms later (List.mem_cons_of_mem _ member)

theorem new_healthy (cpus : Nat) (memory : ω) : (new cpus memory).Healthy where
  held := (new_agrees cpus memory).2.2
  exit := rfl
  recorded _ _ found := by cases found
  positive := by
    simp only [SchedClass.cpus, new, Queues.new, Queues.cpus, List.length_replicate]
    exact Nat.lt_of_lt_of_le Nat.one_pos (Nat.le_max_left ..)
  stocked := by
    refine ⟨?_, ?_⟩
    · intro _ queue present
      have one : (new cpus memory).queues.shared =
          (∅ : Table QueueId (List Pid)).insert globalQueue [] := rfl
      rw [one, Table.contains_insert, Bool.or_eq_true, decide_eq_true_eq] at present
      rcases present with same | absent
      · rw [same]
        decide
      · cases absent
    · intro policy active
      cases active

/-- What holds of the class as long as only policies that keep the rules are installed. -/
structure Steady (c : SchedClass ω) : Prop where
  agrees : c.Agrees []
  backed : c.Backed []
  healthy : c.Healthy

namespace Steady

theorem new (cpus : Nat) (memory : ω) : (new cpus memory).Steady :=
  ⟨(new_agrees cpus memory).1, (new_agrees cpus memory).2.1, new_healthy cpus memory⟩

theorem step (steady : c.Steady) (op : Operation ω) (conforms : op.Conforms) :
    (c.step op).Steady := by
  have carries := step_carries steady.agrees steady.backed op
  exact ⟨carries.agrees, carries.backed,
    (step_stands steady.agrees steady.backed steady.healthy conforms).1⟩

theorem setMemory (steady : c.Steady) (memory : ω) : ({ c with memory } : SchedClass ω).Steady :=
  steady.step (.setMemory memory) trivial

end Steady

end LoadableSched.SchedClass
