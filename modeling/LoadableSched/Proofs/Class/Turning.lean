import LoadableSched.Proofs.Class.Stationing

/-!
What an operation makes of one processor under a policy that gives tasks to idle processors alone: one of a few
things happens to the task that it runs, to its own line and to its flag.
-/

namespace LoadableSched.SchedClass

variable {ω : Type} {c : SchedClass ω} {policy : Policy ω} {order : List QueueId}

theorem place_joins {cpu : CpuId} {pid : Pid} (known : cpu < c.cpus)
    (registered : c.tasks.contains pid = true) (absent : pid ∉ c.queues.waiting) (slice : Nanos) :
    ∃ d, c.place cpu [] [⟨pid, localQueue, slice⟩] = (.ok [pid], d) ∧ ∀ other, d.station other =
      if other = cpu then { c.station cpu with line := c.queues.ownLine cpu ++ [pid] }
      else c.station other := by
  have fresh : c.queues.contains pid = false := by
    rw [Queues.contains, ← Bool.not_eq_true, List.contains_iff_mem]
    exact absent
  have pushed : c.queues.push localQueue cpu pid = .ok _ := (if_pos rfl).trans (if_pos known)
  refine ⟨_, by simp [place, placeOne, registered, fresh, pushed]; rfl, fun other => ?_⟩
  refine station_eq_ite (eq_ite_self c.current? cpu other) ?_ (eq_ite_self c.queues.isIdle cpu other)
  refine (Queues.ownLine_modify (q := c.queues) known (· ++ [pid]) other).trans ?_
  split
  · rename_i here
    rw [here]
  · rfl

section

variable {pid : Pid} {task : Task} (flags : UInt64) (agrees : c.Agrees [pid])
  (directs : policy.Directs order)

include directs

theorem chooseCpu_passes {cpu : CpuId} (known : cpu < c.cpus)
    (passed : c.queues.selectCpu task.lastCpu = ((cpu, false), c.queues)) :
    ∃ memory, c.chooseCpu policy task flags = (.ok (cpu, []), { c with memory }) := by
  obtain ⟨slice, m, ran⟩ := directs.selectCpu task.lastCpu c.clock c.queues c.memory task task.lastCpu flags
  rw [passed, if_neg Bool.false_ne_true] at ran
  refine ⟨m, ?_⟩
  unfold chooseCpu call
  simp only [show c.invoke task.lastCpu (policy.selectCpu task task.lastCpu flags) = _ from ran]
  exact if_neg (Nat.not_le_of_lt known)

include agrees

theorem chooseCpu_claims (number : task.pid = pid) (queued : c.state? pid = some .queued)
    (absent : pid ∉ c.queues.waiting) {cpu : CpuId}
    (claimed : c.queues.selectCpu task.lastCpu = ((cpu, true), c.queues.setIdle cpu false))
    (idle : c.queues.isIdle cpu = true) :
    ∃ d, c.chooseCpu policy task flags = (.ok (cpu, [pid]), d) ∧ ∀ other, d.station other =
      if other = cpu then ⟨c.current? cpu, c.queues.ownLine cpu ++ [pid], false⟩ else c.station other := by
  obtain ⟨slice, m, ran⟩ := directs.selectCpu task.lastCpu c.clock c.queues c.memory task task.lastCpu flags
  rw [claimed, number, if_pos rfl] at ran
  have flagged : cpu < c.queues.idle.length := by
    by_contra beyond
    simp [Queues.isIdle, beyond] at idle
  have known : cpu < c.cpus := Nat.lt_of_lt_of_eq flagged agrees.queues.flags
  obtain ⟨d, placed, stations⟩ := place_joins
    (c := c.resume ⟨c.queues.setIdle cpu false, [⟨pid, localQueue, slice⟩], none, m⟩)
    known (contains_of_state? queued) absent slice
  refine ⟨d, ?_, fun other => (stations other).trans ?_⟩
  · unfold chooseCpu call
    simp only [show c.invoke task.lastCpu (policy.selectCpu task task.lastCpu flags) = _ from ran]
    refine (if_neg (Nat.not_le_of_lt known)).trans ?_
    rw [placed]
  · have flag := Queues.isIdle_setIdle (q := c.queues) flagged false other
    split
    · rename_i here
      subst here
      rw [if_pos rfl] at flag
      exact congrArg (Station.mk _ _) flag
    · rename_i elsewhere
      rw [if_neg elsewhere] at flag
      exact congrArg (Station.mk _ _) flag

end

/-! The operations that are about a processor. -/

section

variable (steady : c.Steady) (served : c.Served order)
  (directs : ∀ policy, c.policy = some policy → policy.Directs order)

include steady served directs

theorem wake_stations {pid : Pid} {slot : Slot} (found : c.tasks.get? pid = some slot)
    (asleep : slot.state = .sleeping) (active : c.policy ≠ none) (flags : UInt64) (cpu : CpuId) :
    (c.wake pid flags).2.station cpu =
      if (c.queues.selectCpu slot.task.lastCpu).1 = (cpu, true) then
        ⟨c.current? cpu, c.queues.ownLine cpu ++ [pid], false⟩
      else c.station cpu := by
  obtain ⟨policy, active⟩ := Option.ne_none_iff_exists'.mp active
  obtain ⟨loosened, queued, absent, _⟩ := waking steady.agrees found (not_not_intro asleep)
  obtain ⟨number, known⟩ := steady.healthy.recorded pid slot found
  have there : (c.setState pid .queued).policy = some policy := active
  have stocks : (c.setState pid .queued).queues.Stocks order := served.stocks
  unfold wake
  simp only [found, if_neg (not_not_intro asleep), there]
  rcases c.queues.selectCpu_cases slot.task.lastCpu with
    ⟨chosen, claimed, idle, _⟩ | ⟨⟨chosen, passed⟩, _⟩
  · obtain ⟨d, made, stations⟩ := chooseCpu_claims flags loosened (directs policy active) number
      queued absent claimed idle
    rw [made, claimed]
    simp only [List.contains_cons, BEq.rfl, Bool.true_or, if_true, Prod.mk.injEq, and_true]
    refine (stations cpu).trans ?_
    by_cases here : cpu = chosen
    · rw [if_pos here, if_pos here.symm, here]
      rfl
    · rw [if_neg here, if_neg (Ne.symm here)]
      rfl
  · have inside : (c.queues.selectCpu slot.task.lastCpu).1.1 < c.queues.cpus :=
      Queues.selectCpu_lt steady.agrees.queues known
    rw [passed] at inside
    obtain ⟨m, made⟩ := chooseCpu_passes (c := c.setState pid .queued) flags
      (directs policy active) inside passed
    rw [made, passed]
    simp only [List.contains_nil, Bool.false_eq_true, if_false, Prod.mk.injEq, and_false]
    have tidy := (mapTask_agrees loosened pid fun task => { task with lastCpu := chosen }).tidy
    exact enqueueWith_rests (c := { (c.setState pid .queued).mapTask pid
      (fun task => { task with lastCpu := chosen }) with memory := m }) (directs policy active)
      ⟨tidy.queues, tidy.tasks⟩ stocks pid chosen 0 cpu

omit steady in
theorem refill_idle (cpu : CpuId) (known : cpu < c.cpus) :
    (c.refill cpu).queues.idle = c.queues.idle := by
  unfold refill
  split
  · rfl
  rename_i policy active
  split
  · rfl
  have asks := (directs policy active).drains.conforms.dispatch cpu c.clock c.queues c.memory
    (c.previousWaiting cpu) served.stocks known
  simp only [consult, callAndPlace, call_eq (c := c) asks, place]
  exact (directs policy active).dispatch cpu c.clock ⟨c.queues, [], none, c.memory⟩ cpu _

omit steady directs in
theorem taken_own (agrees : c.Agrees []) {cpu : CpuId} (known : cpu < c.cpus) {next : Option Pid}
    {q : Queues} (made : (c.refill cpu).takeNext cpu = (.ok next, { c.refill cpu with queues := q }))
    (other : CpuId) : q.ownLine other =
      if other = cpu then (c.queues.ownLine cpu).tail else c.queues.ownLine other := by
  obtain ⟨_, _, own⟩ := takeNext_lines (refill_serves agrees cpu).2.queues made
  rw [own]
  rcases refill_served served known with ⟨_, same⟩ | ⟨nobody, flows⟩
  · rw [same]
    split
    · rename_i here
      rw [here]
    · rfl
  · rw [flows.own]
    split
    · rename_i here
      rw [here, nobody]
      cases c.queues.foremost order <;> rfl
    · exact List.append_nil _

omit served steady directs in
theorem takeNext_idle {cpu : CpuId} {next : Option Pid} {q : Queues}
    (made : c.takeNext cpu = (.ok next, { c with queues := q })) : q.idle = c.queues.idle := by
  unfold takeNext at made
  split at made
  · rename_i pid r own
    have same : r = q := congrArg SchedClass.queues (Prod.mk.inj made).2
    rw [← same]
    exact congrArg (·.2.idle) own.symm
  · cases found : c.queues.shared.get? globalQueue with
    | none => simp [Queues.pop, found] at made
    | some pids =>
      simp only [Queues.pop, found] at made
      exact congrArg (·.queues.idle) (Prod.mk.inj made).2.symm

theorem pickNext_stations {cpu : CpuId} (known : cpu < c.cpus) (free : c.current? cpu = none)
    (other : CpuId) : (c.pickNext cpu).2.station other =
      if other = cpu then
        ⟨c.foremost order cpu, (c.queues.ownLine cpu).tail, (c.foremost order cpu).isNone⟩
      else c.station other := by
  obtain ⟨result, _, _⟩ := pickNext_served steady.agrees steady.backed served known free
  obtain ⟨_, _, next, found, runs, _⟩ := steady.picks known
  cases Except.ok.inj (found.symm.trans result)
  have refilled := refill_keeps steady.agrees served.stocked known
  obtain ⟨serves, between⟩ := refill_serves steady.agrees cpu
  obtain ⟨next, q, made, moved, numbers⟩ := takeNext_eq between.queues cpu
  obtain ⟨first, _, _⟩ := takeNext_served steady.agrees served known made
  have flags : q.idle = c.queues.idle := (takeNext_idle made).trans (refill_idle served directs cpu known)
  have flagged : cpu < q.idle.length := by
    rw [flags, steady.agrees.queues.flags]
    exact known
  have queues : (c.pickNext cpu).2.queues = q.setIdle cpu next.isNone := by
    unfold pickNext
    simp only [if_neg (Nat.not_le_of_lt known), free]
    rw [made]
    cases next with
    | none => rfl
    | some pid =>
      obtain ⟨loosened, queued, absent⟩ := taken_agrees between moved
      have taken : c.Keeps { c.refill cpu with queues := q } :=
        refilled.trans (setQueues_keeps moved.cpus numbers)
      have same : c.Serves (c.refillInquiries cpu) { c.refill cpu with queues := q } :=
        serves.trans_still (.still rfl moved.cpus (fun _ => rfl) fun _ => rfl)
      exact (run_served loosened (taken.stocked served.stocked)
        (fun policy active => served.drains policy (taken.policy.symm.trans active))
        (taken.stocks served.stocks) queued absent ((same.current? cpu).trans free)
        (Nat.lt_of_lt_of_eq known same.cpus.symm) (same.backed steady.backed)).2.2
  refine station_eq_ite (runs other) ?_ ?_
  · rw [queues]
    exact taken_own served steady.agrees known made other
  · rw [queues, Queues.isIdle_setIdle flagged, first, Queues.isIdle, flags]
    rfl

theorem stop_stations {cpu : CpuId} {pid : Pid} (here : c.current? cpu = some pid) (ran : Nanos)
    (runnable : Bool) (other : CpuId) : (c.stop cpu ran runnable).2.station other =
      if other = cpu then ⟨none, c.queues.ownLine cpu, true⟩ else c.station other := by
  have known : cpu < c.cpus := steady.backed.known here
  have flagged : cpu < c.queues.idle.length := Nat.lt_of_lt_of_eq known steady.agrees.queues.flags.symm
  obtain ⟨vacant, _⟩ := vacate_spec steady.agrees steady.backed here
  obtain ⟨slot, found, _⟩ := Option.map_eq_some_iff.mp (steady.healthy.held cpu pid here)
  have left : (c.vacate cpu pid).station other =
      if other = cpu then ⟨none, c.queues.ownLine cpu, true⟩ else c.station other := by
    refine station_eq_ite ?_ (eq_ite_self c.queues.ownLine cpu other) (Queues.isIdle_setIdle flagged true other)
    exact (current?_set c cpu none other).trans (by rw [ite_self])
  have there : (c.vacate cpu pid).tasks.get? pid = some slot := found
  rw [← left]
  unfold stop
  simp only [if_neg (Nat.not_le_of_lt known), here, there]
  have between := mapTask_agrees vacant pid fun _ => slot.task.charge ran
  have charged : (c.vacate cpu pid).Rests ((c.vacate cpu pid).mapTask pid fun _ => slot.task.charge ran) :=
    fun _ => rfl
  have stocked : ((c.vacate cpu pid).mapTask pid fun _ => slot.task.charge ran).Stocked :=
    served.stocked.of_sameNumbers rfl fun _ => rfl
  have stocks : ((c.vacate cpu pid).mapTask pid fun _ => slot.task.charge ran).queues.Stocks order :=
    served.stocks
  have under : ∀ policy, ((c.vacate cpu pid).mapTask pid fun _ => slot.task.charge ran).policy =
      some policy → policy.Directs order := directs
  refine charged.trans ?_ other
  generalize (c.vacate cpu pid).mapTask pid (fun _ => slot.task.charge ran) = m at *
  have halted := halt_keeps between stocked cpu (slot.task.charge ran) runnable
  obtain ⟨_, after⟩ := halt_serves between cpu (slot.task.charge ran) runnable
  exact (halt_rests under stocks cpu _ runnable).trans (settleStopped_rests
    (fun policy active => under policy (halted.policy.symm.trans active)) (halted.stocks stocks)
    after.tidy cpu pid runnable)

omit served directs in
theorem removeTask_stations (pid : Pid) (cpu : CpuId) : (c.removeTask pid).2.station cpu =
      if c.current? cpu = some pid then ⟨none, c.queues.ownLine cpu, true⟩
      else { c.station cpu with line := (c.queues.ownLine cpu).erase pid } := by
  have idles : c.state? pid ≠ some (.running cpu) → c.current? cpu ≠ some pid := fun other here =>
    other (steady.healthy.held cpu pid here)
  have absent : c.state? pid ≠ some .queued → (c.queues.ownLine cpu).erase pid = c.queues.ownLine cpu := by
    intro other
    refine List.erase_of_not_mem fun member => other ?_
    exact steady.agrees.queued pid (List.mem_append_right _ (Queues.mem_waiting_of_ownLine member))
  unfold removeTask
  cases found : c.tasks.get? pid with
  | none =>
    have unknown : c.state? pid = none := by rw [state?, found]; rfl
    rw [if_neg (idles (by simp [unknown])), absent (by simp [unknown])]
    rfl
  | some slot =>
    have state : c.state? pid = some slot.state := by rw [state?, found]; rfl
    cases place : slot.state with
    | sleeping =>
      rw [place] at state
      rw [if_neg (idles (by simp [state])), absent (by simp [state])]
      simp only [place]
      rfl
    | queued =>
      rw [place] at state
      rw [if_neg (idles (by simp [state])),
        ← Queues.remove_ownLine steady.agrees.queues steady.agrees.distinct pid cpu]
      simp only [place, station, current?, Queues.isIdle, Queues.remove_idle]
    | running home =>
      rw [place] at state
      have runs := (steady.backed.running pid home state).resolve_right List.not_mem_nil
      have flagged : home < c.queues.idle.length :=
        Nat.lt_of_lt_of_eq (steady.backed.known runs) steady.agrees.queues.flags.symm
      have whose : c.current? cpu = some pid ↔ cpu = home := by
        refine ⟨fun here => ?_, fun same => same ▸ runs⟩
        have there := steady.healthy.held cpu pid here
        rw [state] at there
        cases there
        rfl
      simp only [place, whose, absent (by simp [state])]
      refine station_eq_ite ?_ (ite_self _).symm (Queues.isIdle_setIdle flagged true cpu)
      exact (current?_set c home none cpu).trans (by rw [ite_self])

end

/-! One step of one processor. -/

/-- What an operation does at a processor: at most one of these. -/
inductive Turns (cpu : CpuId) : Operation ω → Station → Station → Prop where
  | stays {op : Operation ω} {s : Station} (picks : op = .pickNext cpu → s.current ≠ none)
    (removes : ∀ pid, op = .removeTask pid → s.current ≠ some pid ∧ pid ∉ s.line) : Turns cpu op s s
  | claimed {pid : Pid} {flags : UInt64} {s : Station} (idle : s.idle = true) :
    Turns cpu (.wake pid flags) s ⟨s.current, s.line ++ [pid], false⟩
  | vacated {ran : Nanos} {runnable : Bool} {s : Station} (busy : s.current ≠ none) :
    Turns cpu (.stop cpu ran runnable) s ⟨none, s.line, true⟩
  | orphaned {pid : Pid} {s : Station} (runs : s.current = some pid) :
    Turns cpu (.removeTask pid) s ⟨none, s.line, true⟩
  | withdrawn {pid : Pid} {s : Station} (waits : pid ∈ s.line) :
    Turns cpu (.removeTask pid) s ⟨s.current, s.line.erase pid, s.idle⟩
  | starts {pid : Pid} {rest : List Pid} {idle : Bool} :
    Turns cpu (.pickNext cpu) ⟨none, pid :: rest, idle⟩ ⟨some pid, rest, false⟩
  | fetches {pid : Pid} {idle : Bool} : Turns cpu (.pickNext cpu) ⟨none, [], idle⟩ ⟨some pid, [], false⟩
  | rests {idle : Bool} : Turns cpu (.pickNext cpu) ⟨none, [], idle⟩ ⟨none, [], true⟩

def Turned (c : SchedClass ω) (op : Operation ω) (cpu : CpuId) : Prop :=
  Turns cpu op (c.station cpu) ((c.step op).station cpu)

theorem Rests.turned {op : Operation ω} {cpu : CpuId} (rests : c.Rests (c.step op))
    (picks : op ≠ .pickNext cpu) (removes : ∀ pid, op ≠ .removeTask pid) : c.Turned op cpu := by
  rw [Turned, rests cpu]
  exact .stays (fun same => absurd same picks) fun pid same => absurd same (removes pid)

section

variable (steady : c.Steady) (served : c.Served order)
  (directs : ∀ policy, c.policy = some policy → policy.Directs order) {cpu : CpuId}

include steady served directs

theorem wake_turns (pid : Pid) (flags : UInt64) : c.Turned (.wake pid flags) cpu := by
  have still : c.Rests (c.step (.wake pid flags)) → c.Turned (.wake pid flags) cpu :=
    fun rests => rests.turned (by simp) (by simp)
  cases found : c.tasks.get? pid with
  | none => exact still fun _ => by simp only [step, wake, found]
  | some slot =>
    by_cases awake : slot.state ≠ .sleeping
    · exact still fun _ => by simp only [step, wake, found, if_pos awake]
    have asleep := Decidable.not_not.mp awake
    cases active : c.policy with
    | none =>
      obtain ⟨e, made, _⟩ := enqueueGlobal_slots (c := c.setState pid .queued)
        steady.agrees.queues.global pid
      have ready : (c.setState pid .queued).Tidy :=
        ⟨steady.agrees.queues, steady.agrees.tasks.modify _ _⟩
      have there : (c.setState pid .queued).policy = none := active
      refine still fun other => ?_
      simp only [step, wake, found, if_neg awake, there, made]
      exact ready.enqueueGlobal_rests made other
    | some policy =>
      have free : c.policy ≠ none := by simp [active]
      have after := wake_stations steady served directs found asleep free flags cpu
      rw [Turned, step, after]
      rcases c.queues.selectCpu_cases slot.task.lastCpu with
        ⟨chosen, claimed, idle, _⟩ | ⟨⟨chosen, passed⟩, _⟩
      · by_cases here : chosen = cpu
        · rw [claimed, if_pos (by rw [here])]
          exact .claimed (here ▸ idle)
        · rw [claimed, if_neg (by simpa using here)]
          exact .stays (by simp) (by simp)
      · rw [passed, if_neg (by simp)]
        exact .stays (by simp) (by simp)

theorem pickNext_turns (known : cpu < c.cpus) (asked : CpuId) : c.Turned (.pickNext asked) cpu := by
  by_cases unknown : c.cpus ≤ asked
  · have apart : asked ≠ cpu := fun same => Nat.not_le_of_lt known (same ▸ unknown)
    have refused : c.step (.pickNext asked) = c := by simp only [step, pickNext, if_pos unknown]
    rw [Turned, refused]
    exact .stays (fun same => absurd (Operation.pickNext.inj same) apart) (by simp)
  cases free : c.current? asked with
  | some pid =>
    have busy : c.step (.pickNext asked) = c := by simp only [step, pickNext, if_neg unknown, free]
    rw [Turned, busy]
    refine .stays (fun same => ?_) (by simp)
    cases Operation.pickNext.inj same
    simp [station, free]
  | none =>
    rw [Turned, step, pickNext_stations steady served directs (Nat.lt_of_not_le unknown) free cpu]
    by_cases here : cpu = asked
    · subst here
      have found := foremost_eq_none_iff served cpu
      rw [if_pos rfl, station, free]
      unfold foremost at *
      cases line : c.queues.ownLine cpu with
      | cons pid rest => exact .starts
      | nil =>
        simp only [List.head?_nil, Option.none_or, List.tail_nil]
        cases next : ((c.queues.foremost order).map (·.2)).or (c.queues.line globalQueue).head? with
        | none => exact .rests
        | some pid => exact .fetches
    · rw [if_neg here]
      exact .stays (fun same => absurd (Operation.pickNext.inj same).symm here) (by simp)

theorem stop_turns (stopped : CpuId) (ran : Nanos) (runnable : Bool) :
    c.Turned (.stop stopped ran runnable) cpu := by
  cases runs : c.current? stopped with
  | none =>
    have idle : c.step (.stop stopped ran runnable) = c := by
      simp only [step, stop, runs]
      split <;> rfl
    rw [Turned, idle]
    exact .stays (by simp) (by simp)
  | some pid =>
    rw [Turned, step, stop_stations steady served directs runs ran runnable cpu]
    by_cases here : cpu = stopped
    · subst here
      rw [if_pos rfl]
      exact .vacated (s := c.station cpu) (by simp [station, runs])
    · rw [if_neg here]
      exact .stays (by simp) (by simp)

omit served directs in
theorem removeTask_turns (pid : Pid) : c.Turned (.removeTask pid) cpu := by
  rw [Turned, step, removeTask_stations steady pid cpu]
  by_cases runs : c.current? cpu = some pid
  · rw [if_pos runs]
    exact .orphaned (s := c.station cpu) runs
  · rw [if_neg runs]
    by_cases waits : pid ∈ c.queues.ownLine cpu
    · exact .withdrawn (s := c.station cpu) waits
    · rw [List.erase_of_not_mem waits]
      refine .stays (by simp) fun other same => ?_
      cases Operation.removeTask.inj same
      exact ⟨runs, waits⟩

theorem step_turns (known : cpu < c.cpus) {op : Operation ω}
    (direct : ∀ policy, op = .install policy → ∃ order, policy.Directs order) : c.Turned op cpu := by
  cases op with
  | install policy =>
    refine Rests.turned ?_ (by simp) (by simp)
    cases active : c.policy with
    | some current =>
      have same : c.step (.install policy) = c := congrArg Prod.snd (install_busy active)
      rw [same]
      exact .refl c
    | none =>
      obtain ⟨own, given⟩ := direct policy rfl
      exact install_rests steady active given
  | uninstall => exact (uninstall_rests steady).turned (by simp) (by simp)
  | addTask task => exact (addTask_rests directs steady task).turned (by simp) (by simp)
  | removeTask pid => exact removeTask_turns steady pid
  | wake pid flags => exact wake_turns steady served directs pid flags
  | enqueue pid flags =>
    exact (enqueue_rests directs served.stocks steady.agrees.tidy pid flags).turned (by simp) (by simp)
  | pickNext asked => exact pickNext_turns steady served directs known asked
  | stop stopped ran runnable => exact stop_turns steady served directs stopped ran runnable
  | advanceClock delta => exact Rests.turned (fun _ => rfl) (by simp) (by simp)
  | setMemory memory => exact Rests.turned (fun _ => rfl) (by simp) (by simp)

end

end LoadableSched.SchedClass
