import LoadableSched.Proofs.Class.Focusing

/-!
What a task hears in one operation, and the state that it comes to by it, while a policy that minds its own
business is in place or has just lost its place.
-/

namespace LoadableSched.SchedClass

variable {ω : Type} {c d e : SchedClass ω} {events : List Event} {pid : Pid}

/-- What a task hears while one operation takes it from a state to the next, if the policy keeps its place
until the end. -/
inductive Leg : RunState → List Notice → RunState → Prop where
  | rest (state : RunState) : Leg state [] state
  | direct : Leg .sleeping [.selectCpu true] .queued
  | asked : Leg .sleeping [.selectCpu false, .enqueue] .queued
  | entered : Leg .sleeping [.enqueue] .queued
  | started (cpu : CpuId) : Leg .queued [.running cpu] (.running cpu)
  | requeued (cpu : CpuId) : Leg (.running cpu) [.stopping cpu true, .enqueue] .queued
  | slept (cpu : CpuId) : Leg (.running cpu) [.stopping cpu false] .sleeping

theorem Leg.chosen (direct : Bool) :
    ∃ rest, Leg .sleeping (.selectCpu direct :: rest) .queued := by
  cases direct with
  | true => exact ⟨[], .direct⟩
  | false => exact ⟨[.enqueue], .asked⟩

/-- From `c` to `d` a task went one leg. It heard all that belongs to it, or the policy lost its place on
the way. -/
def Advances (pid : Pid) (c : SchedClass ω) (events : List Event) (d : SchedClass ω) : Prop :=
  ∀ before, c.state? pid = some before → ∃ notices after, Leg before notices after ∧
    d.state? pid = some after ∧ noticesOf pid events <+: notices ∧
    (d.policy.isSome → noticesOf pid events = notices)

theorem Quiet.advances (quiet : c.Quiet d) (silent : noticesOf pid events = []) :
    Advances pid c events d := fun before was =>
  ⟨[], before, .rest before, (quiet.states pid).trans was, by simp [silent], fun _ => silent⟩

/-- What an operation makes of a class in which every task goes a leg of its own. -/
structure Conducts (c : SchedClass ω) (events : List Event) (d : SchedClass ω) : Prop where
  held : d.Held
  numbered : d.Numbered
  advances : ∀ pid, Advances pid c events d

def Tells (pid : Pid) (notices : List Notice) (events : List Event) (d : SchedClass ω) : Prop :=
  ∀ other, noticesOf other events <+: (if pid = other then notices else []) ∧
    (d.policy.isSome → noticesOf other events = if pid = other then notices else [])

theorem Hears.tells {notices : List Notice} (hears : c.Hears events d)
    (heard : c.policy.isSome → ∀ other, noticesOf other events = if pid = other then notices else []) :
    Tells pid notices events d := by
  intro other
  refine ⟨?_, fun active => heard (hears.active_before active) other⟩
  cases active : c.policy with
  | none => simp [(hears.none_left active).1]
  | some policy => simp [heard (by rw [active]; rfl)]

theorem Tells.joined {xs ys : List Event} {early late : List Notice} (hears : c.Hears xs d)
    (heard : c.policy.isSome → ∀ other, noticesOf other xs = if pid = other then early else [])
    (tells : Tells pid late ys e) (later : d.Hears ys e) : Tells pid (early ++ late) (xs ++ ys) e := by
  intro other
  obtain ⟨part, whole⟩ := tells other
  rw [noticesOf_append]
  refine ⟨?_, fun active => ?_⟩
  · cases before : c.policy with
    | none =>
      obtain ⟨nothing, gone⟩ := hears.none_left before
      simp [nothing, (later.none_left gone).1]
    | some policy =>
      rw [heard (by rw [before]; rfl) other]
      split <;> simp_all
  · rw [heard (hears.active_before (later.active_before active)) other, whole active]
    split <;> rfl

structure Moves (c : SchedClass ω) (pid : Pid) (after : RunState) (d : SchedClass ω) : Prop where
  held : d.Held
  numbered : d.Numbered
  states : ∀ other, d.state? other = if other = pid then some after else c.state? other

namespace Moves

variable {before after : RunState}

theorem then_quiet (moves : Moves c pid after d) (quiet : d.Quiet e) : Moves c pid after e where
  held := quiet.held moves.held
  numbered := quiet.numbered moves.numbered
  states other := (quiet.states other).trans (moves.states other)

theorem after_same (moves : Moves d pid after e) (states : ∀ other, d.state? other = c.state? other) :
    Moves c pid after e where
  held := moves.held
  numbered := moves.numbered
  states other := by rw [moves.states, states]

theorem state_self (moves : Moves c pid after d) : d.state? pid = some after :=
  (moves.states pid).trans (if_pos rfl)

theorem conducts {notices : List Notice} (moves : Moves c pid after d)
    (was : c.state? pid = some before) (leg : Leg before notices after)
    (tells : Tells pid notices events d) : Conducts c events d := by
  refine ⟨moves.held, moves.numbered, fun other state found => ?_⟩
  obtain ⟨part, whole⟩ := tells other
  by_cases same : pid = other
  · rw [if_pos same] at part whole
    subst same
    cases Option.some.inj (found.symm.trans was)
    exact ⟨notices, after, leg, moves.state_self, part, whole⟩
  · rw [if_neg same] at part whole
    have still := ((moves.states other).trans (if_neg (Ne.symm same))).trans found
    exact ⟨[], state, .rest state, still, part, whole⟩

end Moves

theorem setState_moves {before state : RunState} (numbered : c.Numbered)
    (was : c.state? pid = some before) (held : (c.setState pid state).Held) :
    Moves c pid state (c.setState pid state) := by
  refine ⟨held, numbered.modify pid _ fun slot found => numbered pid slot found, fun other => ?_⟩
  rw [state?_setState]
  split
  · rename_i same
    rw [same, was]
    rfl
  · rfl

/-! What is heard of one task. -/

theorem noticesOf_enqueueWith (numbered : c.Numbered) (registered : c.tasks.contains pid = true)
    (policy : Policy ω) (cpu : CpuId) (flags : UInt64) (other : Pid) :
    noticesOf other ((c.enqueueWithInquiries policy pid cpu flags).map Inquiry.event) =
      if pid = other then [.enqueue] else [] := by
  obtain ⟨slot, found⟩ := Table.contains_iff_exists.mp registered
  have task : c.task? pid = some slot.task := by rw [task?, found]; rfl
  simp [enqueueWithInquiries, Inquiry.event, task, numbered pid slot found]

structure Readied (c : SchedClass ω) (pid : Pid) (d : SchedClass ω) : Prop
    extends Moves c pid .queued d where
  agrees : d.Agrees [pid]
  absent : pid ∉ d.queues.waiting

namespace Readied

theorem enqueueGlobal (readied : Readied c pid d) :
    ∃ e, d.enqueueGlobal pid = .ok e ∧ Moves c pid .queued e := by
  obtain ⟨e, made, quiet⟩ := enqueueGlobal_quiet readied.agrees readied.state_self readied.absent
  exact ⟨e, made, readied.toMoves.then_quiet quiet⟩

theorem enqueueWith (readied : Readied c pid d) {policy : Policy ω} (active : d.policy.isSome)
    (focused : policy.Focused) (cpu : CpuId) (flags : UInt64) :
    Moves c pid .queued (d.enqueueWith policy pid cpu flags) ∧
      ∀ other, noticesOf other ((d.enqueueWithInquiries policy pid cpu flags).map Inquiry.event) =
        if pid = other then [.enqueue] else [] :=
  ⟨readied.toMoves.then_quiet
      (enqueueWith_quiet readied.agrees active readied.numbered readied.state_self focused cpu flags),
    noticesOf_enqueueWith readied.numbered (contains_of_state? readied.state_self) policy cpu flags⟩

end Readied

/-- The class is in order, and the policy, if there is one, minds its own business. -/
structure Orderly (c : SchedClass ω) : Prop where
  agrees : c.Agrees []
  backed : c.Backed []
  held : c.Held
  numbered : c.Numbered
  focused : ∀ policy, c.policy = some policy → policy.Focused

theorem place_ok {cpu : CpuId} {placed all : List Pid} {placements : List Placement}
    (made : (c.place cpu placed placements).1 = .ok all) : all = placed ++ placements.map (·.pid) := by
  induction placements generalizing c placed with
  | nil => simpa using (Except.ok.inj made).symm
  | cons p rest ih =>
    unfold place at made
    split at made
    · cases made
    · simpa using ih made

theorem chooseCpu_direct {policy : Policy ω} {task : Task} {flags : UInt64} {cpu : CpuId}
    {placed : List Pid} (made : c.chooseCpu policy task flags = (.ok (cpu, placed), d)) :
    c.placesDirectly policy task flags = placed.contains task.pid := by
  unfold chooseCpu at made
  split at made <;> rename_i outcome
  · cases congrArg Prod.fst made
  · obtain ⟨_, same, _⟩ := call_ok outcome
    split at made
    · cases congrArg Prod.fst made
    · split at made <;> rename_i all
      · cases congrArg Prod.fst made
      · obtain ⟨made, _⟩ := Prod.mk.inj made
        cases Except.ok.inj made
        have pids := place_ok (congrArg Prod.fst all)
        rw [Bool.eq_iff_iff, List.contains_iff_mem, pids, placesDirectly, same]
        simp

theorem event_selectCpu (c : SchedClass ω) (policy : Policy ω) (task : Task) (flags : UInt64) :
    let i : Inquiry ω := ⟨c, policy, .selectCpu task flags⟩
    i.event = ⟨.task task.pid (.selectCpu (c.placesDirectly policy task flags)), i.failure⟩ := rfl

theorem Readied.settle {policy : Policy ω} {task : Task} {flags : UInt64} {cpu : CpuId}
    {placed : List Pid} (readied : Readied c pid d) (was : c.state? pid = some .sleeping)
    (number : task.pid = pid) (active : d.policy = some policy) (focused : policy.Focused)
    (chosen : d.chooseCpu policy task flags = (.ok (cpu, placed), e)) :
    let moved := e.mapTask pid fun task => { task with lastCpu := cpu }
    Conducts c
      ((⟨d, policy, .selectCpu task flags⟩ :: if placed.contains pid then []
        else moved.enqueueWithInquiries policy pid cpu 0).map Inquiry.event)
      (if placed.contains pid then moved else moved.enqueueWith policy pid cpu 0) := by
  intro moved
  have direct := chooseCpu_direct chosen
  have quiet := chooseCpu_quiet readied.agrees (number ▸ readied.state_self) focused flags
  have places := chooseCpu_places readied.agrees policy task flags
  rw [chosen] at quiet places
  have charged : e.Quiet moved := mapTask_quiet fun numbered slot found => numbered pid slot found
  have moves : Moves c pid .queued moved := readied.toMoves.then_quiet (quiet.trans charged)
  rw [List.map_cons, event_selectCpu, direct, number]
  cases placed.contains pid with
  | true =>
    exact moves.conducts was .direct fun other => ⟨by simp, by simp⟩
  | false =>
    have working : moved.policy.isSome := by
      rw [show moved.policy = d.policy from places.policy, active]
      rfl
    have loosened : moved.Agrees [pid] := mapTask_agrees (places.agrees readied.agrees) pid _
    have asked := moves.then_quiet
      (enqueueWith_quiet loosened working moves.numbered moves.state_self focused cpu 0)
    have heard :=
      noticesOf_enqueueWith moves.numbered (contains_of_state? moves.state_self) policy cpu 0
    refine asked.conducts was .asked fun other => ?_
    by_cases same : pid = other
    · subst same
      simp [heard]
    · simp [heard, same]

theorem Quiet.conducts (orderly : c.Orderly) (quiet : c.Quiet d)
    (silent : ∀ pid, noticesOf pid events = []) : Conducts c events d :=
  ⟨quiet.held orderly.held, quiet.numbered orderly.numbered, fun pid => quiet.advances (silent pid)⟩

namespace Orderly

variable (orderly : c.Orderly)

include orderly

theorem readied {slot : Slot} (found : c.tasks.get? pid = some slot)
    (asleep : ¬ slot.state ≠ .sleeping) :
    c.state? pid = some .sleeping ∧ Readied c pid (c.setState pid .queued) := by
  obtain ⟨loosened, _, absent, holds⟩ := waking orderly.agrees found asleep
  have was : c.state? pid = some .sleeping := by
    rw [state?, found, ← Decidable.not_not.mp asleep]
    rfl
  exact ⟨was, setState_moves orderly.numbered was (holds orderly.held), loosened, absent⟩

theorem idle : Conducts c [] c := Quiet.conducts orderly (.refl c) fun _ => rfl

theorem wake (pid : Pid) (flags : UInt64) :
    Conducts c ((c.wakeInquiries pid flags).map Inquiry.event) (c.wake pid flags).2 := by
  unfold SchedClass.wake wakeInquiries
  cases found : c.tasks.get? pid with
  | none => exact orderly.idle
  | some slot =>
    dsimp only
    by_cases asleep : slot.state ≠ .sleeping
    · simp only [if_pos asleep]
      exact orderly.idle
    simp only [if_neg asleep]
    have number := orderly.numbered pid slot found
    have focused : ∀ policy, (c.setState pid .queued).policy = some policy → policy.Focused :=
      orderly.focused
    obtain ⟨was, readied⟩ := orderly.readied found asleep
    generalize c.setState pid .queued = d at *
    cases active : d.policy with
    | none =>
      obtain ⟨e, made, moves⟩ := readied.enqueueGlobal
      simp only [made]
      exact moves.conducts was .entered ((enqueueGlobal_hears made).tells (by simp [active]))
    | some policy =>
      dsimp only
      rcases outcome : d.chooseCpu policy slot.task flags with ⟨reason | ⟨cpu, placed⟩, e⟩
      · -- The choice of a processor was a misuse: the task counts as waiting already, and the removal of
        -- the policy sees to it that it is on a queue.
        have own : d.state? slot.task.pid = some .queued := number ▸ readied.state_self
        have chosen := chooseCpu_quiet readied.agrees own (focused policy active) flags
        have places := chooseCpu_places readied.agrees policy slot.task flags
        rw [outcome] at chosen places
        have working : e.policy.isSome := by rw [places.policy, active]; rfl
        have moves := readied.toMoves.then_quiet
          (chosen.trans (abort_quiet (places.agrees readied.agrees) working reason))
        obtain ⟨rest, leg⟩ := Leg.chosen (d.placesDirectly policy slot.task flags)
        simp only [List.map_cons, List.map_nil, event_selectCpu, number]
        refine moves.conducts was leg fun other => ⟨?_, by simp [abort_policy]⟩
        by_cases same : pid = other <;> simp [same]
      · have settled := readied.settle was number active (focused policy active) outcome
        dsimp only
        cases there : placed.contains pid <;> rw [there] at settled <;> exact settled

theorem enqueue (pid : Pid) (flags : UInt64) :
    Conducts c ((c.enqueueInquiries pid flags).map Inquiry.event) (c.enqueue pid flags).2 := by
  unfold SchedClass.enqueue enqueueInquiries
  cases found : c.tasks.get? pid with
  | none => exact orderly.idle
  | some slot =>
    dsimp only
    by_cases asleep : slot.state ≠ .sleeping
    · simp only [if_pos asleep]
      exact orderly.idle
    simp only [if_neg asleep]
    have focused : ∀ policy, (c.setState pid .queued).policy = some policy → policy.Focused :=
      orderly.focused
    obtain ⟨was, readied⟩ := orderly.readied found asleep
    generalize c.setState pid .queued = d at *
    cases active : d.policy with
    | none =>
      obtain ⟨e, made, moves⟩ := readied.enqueueGlobal
      simp only [made]
      exact moves.conducts was .entered ((enqueueGlobal_hears made).tells (by simp [active]))
    | some policy =>
      obtain ⟨moves, heard⟩ := readied.enqueueWith (by rw [active]; rfl) (focused policy active)
        slot.task.lastCpu flags
      exact moves.conducts was .entered fun other => ⟨by simp [heard], fun _ => heard other⟩

end Orderly

/-! Running and stopping. -/

theorem Quiet.focused (quiet : c.Quiet d) (focused : ∀ policy, c.policy = some policy → policy.Focused)
    (policy : Policy ω) (active : d.policy = some policy) : policy.Focused := by
  rcases quiet.policy with same | gone
  · exact focused policy (same.symm.trans active)
  · rw [gone] at active
    cases active

theorem noticesOf_start (active : c.policy.isSome) (cpu : CpuId) (task : Task) (other : Pid) :
    noticesOf other ((c.startInquiries cpu task).map Inquiry.event) =
      if task.pid = other then [.running cpu] else [] := by
  obtain ⟨policy, active⟩ := Option.isSome_iff_exists.mp active
  simp [startInquiries, active, Inquiry.event]

theorem noticesOf_halt (active : c.policy.isSome) (cpu : CpuId) (task : Task) (runnable : Bool)
    (other : Pid) : noticesOf other ((c.haltInquiries cpu task runnable).map Inquiry.event) =
      if task.pid = other then [.stopping cpu runnable] else [] := by
  obtain ⟨policy, active⟩ := Option.isSome_iff_exists.mp active
  simp [haltInquiries, active, Inquiry.event]

theorem engage_moves {cpu : CpuId} (agrees : c.Agrees [pid]) (queued : c.state? pid = some .queued)
    (absent : pid ∉ c.queues.waiting) (free : c.current? cpu = none) (known : cpu < c.cpus)
    (backed : c.Backed []) (held : c.Held) (numbered : c.Numbered) :
    Moves c pid (.running cpu) ((c.occupy cpu pid).engage cpu pid) := by
  obtain ⟨_, _, holds⟩ := engage_spec agrees queued absent free known backed
  exact ⟨holds.mpr held, numbered.modify pid _ fun slot found => numbered pid slot found,
    state?_engage queued⟩

theorem run_conducts {cpu : CpuId} (agrees : c.Agrees [pid]) (queued : c.state? pid = some .queued)
    (absent : pid ∉ c.queues.waiting) (free : c.current? cpu = none) (known : cpu < c.cpus)
    (backed : c.Backed []) (held : c.Held) (numbered : c.Numbered)
    (focused : ∀ policy, c.policy = some policy → policy.Focused) :
    Conducts c ((c.runInquiries cpu pid).map Inquiry.event) (c.run cpu pid).2 := by
  obtain ⟨entered, _⟩ := engage_spec agrees queued absent free known backed
  have moves := engage_moves agrees queued absent free known backed held numbered
  have hears := (c.run_leads cpu pid).hears
  obtain ⟨slot, found, _⟩ := Option.map_eq_some_iff.mp queued
  have there : (c.occupy cpu pid).tasks.get? pid = some slot := found
  unfold run runInquiries at hears ⊢
  simp only [there] at hears ⊢
  refine (moves.then_quiet (start_quiet entered focused cpu _)).conducts queued (.started cpu)
    (hears.tells fun active other => ?_)
  rw [noticesOf_start (c := (c.occupy cpu pid).engage cpu pid) active]
  simp only [Task.startOn, numbered pid slot found]

theorem Quiet.then_conducts {xs ys : List Event} (quiet : c.Quiet d)
    (silent : ∀ pid, noticesOf pid xs = []) (later : Conducts d ys e) : Conducts c (xs ++ ys) e := by
  refine ⟨later.held, later.numbered, fun pid before was => ?_⟩
  obtain ⟨notices, after, leg, there, part, whole⟩ :=
    later.advances pid before ((quiet.states pid).trans was)
  exact ⟨notices, after, leg, there, by simpa [silent pid] using part, by simpa [silent pid] using whole⟩

theorem Orderly.pickNext (orderly : c.Orderly) (cpu : CpuId) :
    Conducts c ((c.pickNextInquiries cpu).map Inquiry.event) (c.pickNext cpu).2 := by
  unfold SchedClass.pickNext pickNextInquiries
  by_cases unknown : c.cpus ≤ cpu
  · simp only [if_pos unknown]
    exact orderly.idle
  simp only [if_neg unknown]
  cases free : c.current? cpu with
  | some pid => exact orderly.idle
  | none =>
    obtain ⟨serves, between⟩ := refill_serves orderly.agrees cpu
    obtain ⟨next, q, made, moved, _⟩ := takeNext_eq between.queues cpu
    have taken : c.Quiet { c.refill cpu with queues := q } :=
      (refill_quiet orderly.agrees orderly.focused cpu).trans ⟨rfl, moved.cpus, fun _ => rfl, id, .inl rfl⟩
    simp only [made]
    cases next with
    | none =>
      have same : c.Quiet { c.refill cpu with queues := q.setIdle cpu true } :=
        taken.trans ⟨rfl, rfl, fun _ => rfl, id, .inl rfl⟩
      exact same.conducts orderly fun pid => by simp
    | some pid =>
      obtain ⟨loosened, queued, absent⟩ := taken_agrees between moved
      have supported := serves.backed orderly.backed
      have backed : ({ c.refill cpu with queues := q } : SchedClass ω).Backed [] :=
        ⟨supported.processors.trans moved.cpus.symm, supported.running⟩
      have known : cpu < q.cpus := Nat.lt_of_lt_of_eq (Nat.lt_of_not_le unknown) taken.cpus.symm
      have ran := run_conducts loosened queued absent ((serves.current? cpu).trans free) known backed
        (taken.held orderly.held) (taken.numbered orderly.numbered) (taken.focused orderly.focused)
      rw [List.map_append]
      exact taken.then_conducts (fun pid => noticesOf_refill pid c cpu) ran

def parked (runnable : Bool) : RunState := if runnable then .queued else .sleeping

theorem Leg.stopped (cpu : CpuId) (runnable : Bool) :
    Leg (.running cpu) ([.stopping cpu runnable] ++ if runnable then [.enqueue] else [])
      (parked runnable) := by
  cases runnable with
  | true => exact .requeued cpu
  | false => exact .slept cpu

theorem settleStopped_moves {cpu : CpuId} (agrees : c.Agrees []) (held : c.Held)
    (numbered : c.Numbered) (focused : ∀ policy, c.policy = some policy → policy.Focused)
    (runs : c.state? pid = some (.running cpu)) (free : c.current? cpu = none) (runnable : Bool) :
    Moves c pid (parked runnable) (c.settleStopped cpu pid runnable).2 ∧
      (c.policy.isSome → ∀ other,
        noticesOf other ((c.settleStoppedInquiries cpu pid runnable).map Inquiry.event) =
        if pid = other then if runnable then [.enqueue] else [] else []) := by
  have absent := not_waiting_of_state? agrees runs (by simp)
  have parks : ∀ state, (∀ cpu, state ≠ .running cpu) → Moves c pid state (c.setState pid state) := by
    intro state rests
    exact setState_moves numbered runs
      ((setState_held pid state rests fun held => held.free_of_vacant runs free).mpr held)
  unfold settleStopped settleStoppedInquiries
  rw [if_neg (not_not_intro runs), if_neg (not_not_intro runs)]
  cases runnable with
  | false => exact ⟨parks .sleeping (by simp), fun _ _ => by simp⟩
  | true =>
    have readied : Readied c pid (c.setState pid .queued) :=
      ⟨parks .queued (by simp), setState_queued_agrees agrees pid, absent⟩
    have same : (c.setState pid .queued).policy = c.policy := rfl
    simp only [Bool.not_true, Bool.false_eq_true, if_false]
    generalize c.setState pid .queued = d at *
    rw [← same] at focused ⊢
    cases active : d.policy with
    | none =>
      obtain ⟨e, made, moves⟩ := readied.enqueueGlobal
      simp only [made]
      exact ⟨moves, nofun⟩
    | some policy =>
      obtain ⟨moves, heard⟩ := readied.enqueueWith (by rw [active]; rfl) (focused policy active) cpu 0
      exact ⟨moves, fun _ => heard⟩

theorem Orderly.stop (orderly : c.Orderly) (cpu : CpuId) (ran : Nanos) (runnable : Bool) :
    Conducts c ((c.stopInquiries cpu ran runnable).map Inquiry.event) (c.stop cpu ran runnable).2 := by
  unfold SchedClass.stop stopInquiries
  by_cases unknown : c.cpus ≤ cpu
  · simp only [if_pos unknown]
    exact orderly.idle
  simp only [if_neg unknown]
  cases here : c.current? cpu with
  | none => exact orderly.idle
  | some pid =>
    have was := orderly.held cpu pid here
    obtain ⟨vacant, _, free, holds⟩ := vacate_spec orderly.agrees orderly.backed here
    obtain ⟨slot, found, _⟩ := Option.map_eq_some_iff.mp was
    have there : (c.vacate cpu pid).tasks.get? pid = some slot := found
    have number := orderly.numbered pid slot found
    have held := holds orderly.held
    have numbered : (c.vacate cpu pid).Numbered := orderly.numbered
    have focused : ∀ policy, (c.vacate cpu pid).policy = some policy → policy.Focused := orderly.focused
    have left : ∀ other, (c.vacate cpu pid).state? other = c.state? other := fun _ => rfl
    simp only [there]
    generalize c.vacate cpu pid = d at *
    have charges : d.Quiet (d.mapTask pid fun _ => slot.task.charge ran) := by
      refine mapTask_quiet fun _ slot' found' => ?_
      cases Option.some.inj (found'.symm.trans there)
      exact number
    have charged := mapTask_agrees vacant pid fun _ => slot.task.charge ran
    have halted := halt_quiet charged (charges.focused focused) cpu (slot.task.charge ran) runnable
    have quiet := charges.trans halted
    have states := fun other => (quiet.states other).trans (left other)
    obtain ⟨_, after⟩ := halt_serves charged cpu (slot.task.charge ran) runnable
    -- The first of the two callbacks may cost the policy its place, and then there is no second one.
    have stopped := (halt_leads (d.mapTask pid fun _ => slot.task.charge ran) cpu (slot.task.charge ran)
      runnable).hears
    have told := fun active => noticesOf_halt (c := d.mapTask pid fun _ => slot.task.charge ran)
      active cpu (slot.task.charge ran) runnable
    generalize d.mapTask pid (fun _ => slot.task.charge ran) = m at *
    have settles := (settleStopped_leads (m.halt cpu (slot.task.charge ran) runnable) cpu pid runnable).hears
    obtain ⟨moves, asked⟩ := settleStopped_moves after (quiet.held held) (quiet.numbered numbered)
      (quiet.focused focused) ((states pid).trans was) (by
        rw [current?, quiet.current]
        exact free) runnable
    have charge : (slot.task.charge ran).pid = pid := number
    rw [charge] at told
    rw [List.map_append]
    exact (moves.after_same states).conducts was (.stopped cpu runnable)
      (.joined stopped told (settles.tells asked) settles)

/-! Tasks come and go. -/

theorem noticesOf_enable (numbered : c.Numbered) (registered : c.tasks.contains pid = true)
    (active : c.policy.isSome) (other : Pid) :
    noticesOf other ((c.enableInquiries pid).map Inquiry.event) = if pid = other then [.enable] else [] := by
  obtain ⟨policy, active⟩ := Option.isSome_iff_exists.mp active
  obtain ⟨slot, found⟩ := Table.contains_iff_exists.mp registered
  have task : c.task? pid = some slot.task := by rw [task?, found]; rfl
  simp [enableInquiries, Inquiry.event, active, task, numbered pid slot found]

theorem Orderly.enters (orderly : c.Orderly) {task : Task} (fresh : c.tasks.contains task.pid ≠ true) :
    Moves c task.pid .sleeping (c.addTask task).2 ∧
      Tells task.pid [.enable] ((c.addTaskInquiries task).map Inquiry.event) (c.addTask task).2 := by
  obtain ⟨added, _, holds⟩ := register_spec orderly.agrees orderly.backed fresh
  have moves : Moves c task.pid .sleeping (c.register task) := by
    refine ⟨holds orderly.held, ?_, c.state?_register task⟩
    intro pid slot found
    simp only [register, Table.get?_insert] at found
    split at found
    · rename_i same
      cases found
      exact same.symm
    · exact orderly.numbered pid slot found
  have focused : ∀ policy, (c.register task).policy = some policy → policy.Focused := orderly.focused
  unfold addTask addTaskInquiries
  simp only [if_neg fresh]
  generalize c.register task = d at *
  exact ⟨moves.then_quiet (enable_quiet added focused task.pid), (d.enable_leads task.pid).hears.tells
    (noticesOf_enable moves.numbered (contains_of_state? moves.state_self))⟩

theorem Orderly.addTask (orderly : c.Orderly) (task : Task) :
    Conducts c ((c.addTaskInquiries task).map Inquiry.event) (c.addTask task).2 := by
  by_cases known : c.tasks.contains task.pid = true
  · unfold SchedClass.addTask addTaskInquiries
    simp only [if_pos known]
    exact orderly.idle
  · obtain ⟨moves, tells⟩ := orderly.enters known
    have unknown : c.state? task.pid = none := by simpa [Table.contains_eq, state?] using known
    refine ⟨moves.held, moves.numbered, fun other state found => ?_⟩
    have apart : other ≠ task.pid := by
      intro same
      rw [same, unknown] at found
      cases found
    obtain ⟨part, whole⟩ := tells other
    rw [if_neg (Ne.symm apart)] at part whole
    exact ⟨[], state, .rest state, ((moves.states other).trans (if_neg apart)).trans found, part, whole⟩

theorem Orderly.removeTask (orderly : c.Orderly) (pid : Pid) :
    (c.removeTask pid).2.Held ∧ (c.removeTask pid).2.Numbered ∧
      ∀ other, other ≠ pid → (c.removeTask pid).2.state? other = c.state? other := by
  have carries := removeTask_carries orderly.agrees orderly.backed pid
  refine ⟨(carries.held orderly.held).mpr fun _ member => absurd member List.not_mem_nil, ?_⟩
  have tasks : (c.removeTask pid).2.tasks = c.tasks ∨ (c.removeTask pid).2.tasks = c.tasks.erase pid := by
    unfold SchedClass.removeTask
    split
    · exact .inl rfl
    · dsimp only
      split <;> exact .inr rfl
  rcases tasks with same | erased
  · exact ⟨fun other slot found => orderly.numbered other slot (same ▸ found), fun other _ => by
      rw [state?, same, state?]⟩
  · refine ⟨fun other slot found => ?_, fun other apart => ?_⟩
    · rw [erased, Table.get?_erase] at found
      split at found
      · cases found
      · exact orderly.numbered other slot found
    · rw [state?, erased, Table.get?_erase, if_neg apart, state?]

/-! Any operation. -/

theorem Orderly.conducts (orderly : c.Orderly) {op : Operation ω} (spares : c.Spares op) :
    (c.step op).Held ∧ (c.step op).Numbered ∧
      ∀ pid, op ≠ .removeTask pid → Advances pid c (c.heard op) (c.step op) := by
  have whole : ∀ {events d}, Conducts c events d → d.Held ∧ d.Numbered ∧
      ∀ pid, op ≠ .removeTask pid → Advances pid c events d :=
    fun conducts => ⟨conducts.held, conducts.numbered, fun pid _ => conducts.advances pid⟩
  have same : ∀ d : SchedClass ω, c.Quiet d → Conducts c [] d :=
    fun d quiet => quiet.conducts orderly fun _ => rfl
  cases op with
  | install policy =>
    obtain ⟨nothing, same⟩ := spares.cases.resolve_left id
    rw [nothing, same]
    exact whole orderly.idle
  | uninstall =>
    obtain ⟨nothing, same⟩ := spares.cases.resolve_left id
    rw [nothing, same]
    exact whole orderly.idle
  | addTask task => exact whole (orderly.addTask task)
  | removeTask pid =>
    obtain ⟨held, numbered, states⟩ := orderly.removeTask pid
    refine ⟨held, numbered, fun other apart before was => ?_⟩
    have still := (states other fun same => apart (same ▸ rfl)).trans was
    exact ⟨[], before, .rest before, still, List.prefix_rfl, fun _ => rfl⟩
  | wake pid flags => exact whole (orderly.wake pid flags)
  | enqueue pid flags => exact whole (orderly.enqueue pid flags)
  | pickNext cpu => exact whole (orderly.pickNext cpu)
  | stop cpu ran runnable => exact whole (orderly.stop cpu ran runnable)
  | advanceClock delta => exact whole (same _ ⟨rfl, rfl, fun _ => rfl, id, .inl rfl⟩)
  | setMemory memory => exact whole (same _ ⟨rfl, rfl, fun _ => rfl, id, .inl rfl⟩)

theorem Orderly.step (orderly : c.Orderly) {op : Operation ω} (spares : c.Spares op) :
    (c.step op).Orderly := by
  obtain ⟨held, numbered, _⟩ := orderly.conducts spares
  have carries := step_carries orderly.agrees orderly.backed op
  refine ⟨carries.agrees, carries.backed, held, numbered, fun policy active => ?_⟩
  rcases spares.hears.policy_or with same | gone
  · exact orderly.focused policy (same.symm.trans active)
  · rw [gone] at active
    cases active

end LoadableSched.SchedClass
