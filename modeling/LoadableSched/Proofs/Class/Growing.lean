import LoadableSched.Proofs.Class.Hearing
import LoadableSched.Proofs.Policy.Pooling

/-!
How the line grows that all processors share: that of the policy's one queue or, without a policy, the
global one. What gets ready goes to its end.
-/

namespace LoadableSched

variable {ω : Type}

theorem Queues.headIf_of_moved {q r : Queues} {queue : QueueId} {cpu : CpuId} {moved : Bool}
    (done : q.moveToLocal queue cpu = .ok (moved, r)) :
    q.headIf queue moved = (q.line queue).head?.toList.map (queue, ·) := by
  unfold moveToLocal pop at done
  split at done
  · cases done
  cases found : q.shared.get? queue with
  | none => simp [found] at done
  | some pids =>
    cases pids <;> simp only [found, List.head?_nil, List.head?_cons] at done <;>
      cases Except.ok.inj done
    · simp [headIf, line, found]
    · rfl

namespace SchedClass

variable {c d e : SchedClass ω} {queue : QueueId}

namespace Inquiry

variable {i : Inquiry ω}

theorem fine_of_stays (active : i.before.policy = some i.policy) (stays : i.after.policy ≠ none) :
    i.failure = none := by
  by_contra failed
  exact stays ((i.after_policy active).mpr failed)

def moved (i : Inquiry ω) : List (QueueId × Pid) :=
  (i.policy.answer i.matter).moves i.matter.cpu i.before.clock
    ⟨i.before.queues, [], none, i.before.memory⟩

theorem called_flows (i : Inquiry ω) :
    i.before.queues.Flows i.matter.cpu i.moved i.called.queues :=
  Callback.run_flows _ _ (i.policy.answer i.matter) ⟨i.before.queues, [], none, i.before.memory⟩

theorem called_line (still : i.moved = []) (queue : QueueId) :
    i.called.queues.line queue = i.before.queues.line queue := by
  have flows := i.called_flows.lines queue
  rw [still] at flows
  exact flows.symm

theorem applied_of_fine (fine : i.failure = none) (modest : i.Enables → i.dispatches = []) :
    i.Applied := by
  by_cases enables : i.Enables
  · exact (applied_of_enabled fine enables).mpr (modest enables)
  · exact applied_of_placed fine enables

theorem quiet_of_fine (fine : i.failure = none) (nothing : i.dispatches = []) :
    (∀ queue, i.after.queues.line queue = i.called.queues.line queue) ∧
      (∀ cpu, i.after.queues.ownLine cpu = i.called.queues.ownLine cpu) ∧
      (∀ pid, i.after.state? pid = i.before.state? pid) ∧ i.after.current = i.before.current := by
  obtain ⟨puts, _⟩ := applied_of_fine fine fun _ => nothing
  have retains := i.reached_retains
  rw [nothing] at puts
  refine ⟨fun queue => by simpa using puts.lines queue, fun cpu => by simpa using puts.own cpu,
    fun pid => (puts.states pid).trans (if_neg (by simp)), ?_⟩
  rw [after_fine fine, retains]

theorem pooled_requests (pools : i.policy.Pools queue) (later : i.matter ≠ .init)
    (other : ∀ cpu previous, i.matter ≠ .dispatch cpu previous) :
    i.moved = [] ∧ (i.dispatches.filter (·.queue = queue)).map (·.pid) = i.enqueued queue ∧
      (i.Enables → i.dispatches = []) := by
  have shared := pools.shared
  obtain ⟨before, policy, matter⟩ := i
  cases matter with
  | init => exact absurd rfl later
  | dispatch cpu previous => exact absurd rfl (other cpu previous)
  | selectCpu task flags =>
    obtain ⟨still, locals⟩ := pools.selectCpu task.lastCpu before.clock
      ⟨before.queues, [], none, before.memory⟩ task task.lastCpu flags
    simp only [moved, dispatches, requests, enqueued, Policy.answer, Matter.cpu, Callback.moves_map,
      Callback.requests_map]
    refine ⟨still, ?_, by rintro ⟨_, _, ⟨⟩⟩⟩
    rw [List.map_eq_nil_iff, List.filter_eq_nil_iff]
    intro p member
    obtain ⟨request, member, placed⟩ := List.mem_filterMap.mp member
    obtain ⟨slice, same⟩ := locals request member
    rw [same] at placed
    cases Option.some.inj placed
    simpa using Ne.symm shared
  | enqueue pid task cpu flags =>
    obtain ⟨still, _⟩ := pools.enqueue cpu before.clock ⟨before.queues, [], none, before.memory⟩ task flags
    simp only [moved, Policy.answer, Matter.cpu, Callback.moves_map]
    exact ⟨still, rfl, by rintro ⟨_, _, ⟨⟩⟩⟩
  | running cpu task =>
    obtain ⟨still, nothing⟩ := pools.running cpu before.clock ⟨before.queues, [], none, before.memory⟩ task
    simp only [moved, dispatches, requests, enqueued, Policy.answer, Matter.cpu, Callback.moves_map,
      Callback.requests_map]
    exact ⟨still, by simp [nothing], fun _ => by simp [nothing]⟩
  | stopping cpu task runnable =>
    obtain ⟨still, nothing⟩ := pools.stopping cpu before.clock
      ⟨before.queues, [], none, before.memory⟩ task runnable
    simp only [moved, dispatches, requests, enqueued, Policy.answer, Matter.cpu, Callback.moves_map,
      Callback.requests_map]
    exact ⟨still, by simp [nothing], fun _ => by simp [nothing]⟩
  | enable pid task =>
    obtain ⟨still, nothing⟩ := pools.enable task.lastCpu before.clock
      ⟨before.queues, [], none, before.memory⟩ task
    simp only [moved, dispatches, requests, enqueued, Policy.answer, Matter.cpu, Callback.moves_map,
      Callback.requests_map]
    exact ⟨still, by simp [nothing], fun _ => by simp [nothing]⟩

theorem pooled_line (pools : i.policy.Pools queue) (later : i.matter ≠ .init)
    (other : ∀ cpu previous, i.matter ≠ .dispatch cpu previous) (fine : i.failure = none) :
    i.after.queues.line queue = i.before.queues.line queue ++ i.enqueued queue := by
  have shared := pools.shared
  obtain ⟨still, placed, modest⟩ := pooled_requests pools later other
  rw [(applied_of_fine fine modest).puts.lines, called_line still, ← placed]
  simp [shared]

theorem dispatch_pooled {cpu : CpuId} {previous : Option Task} (pools : i.policy.Pools queue)
    (asked : i.matter = .dispatch cpu previous) (fine : i.failure = none) :
    i.before.queues.line queue = (i.before.queues.line queue).head?.toList ++ i.after.queues.line queue ∧
      i.after.queues.ownLine cpu =
        i.before.queues.ownLine cpu ++ (i.before.queues.line queue).head?.toList := by
  have proper := (reasons_of_fine fine).1
  have flows := i.called_flows
  obtain ⟨before, policy, matter⟩ := i
  cases asked
  obtain ⟨moves, requested⟩ := pools.dispatch cpu before.clock
    ⟨before.queues, [], none, before.memory⟩ previous
  have nothing : dispatches ⟨before, policy, .dispatch cpu previous⟩ = [] := by
    simp [dispatches, requests, Policy.answer, Matter.cpu, requested, Request.placement?]
  obtain ⟨lines, own, _⟩ := quiet_of_fine fine nothing
  simp only [misuses, requests, Policy.answer, Matter.cpu, Callback.requests_map, requested] at proper
  simp only [moved, Policy.answer, Matter.cpu, Callback.moves_map, moves] at flows
  have taken : ∃ moved r, before.queues.moveToLocal queue cpu = .ok (moved, r) := by
    cases done : before.queues.moveToLocal queue cpu with
    | ok answer => exact ⟨answer.1, answer.2, rfl⟩
    | error e => simp [Queues.misuse?_take, done, failure?] at proper
  obtain ⟨moved, r, done⟩ := taken
  simp only [Progress.consume, done, Queues.headIf_of_moved done] at flows
  rw [lines, own]
  refine ⟨(flows.lines queue).trans ?_, (flows.own cpu).trans ?_⟩
  · simp [List.filter_map, Function.comp_def]
  · simp [Function.comp_def]

end Inquiry

theorem Leads.fine {is : List (Inquiry ω)} (leads : c.Leads is d) (stays : d.policy ≠ none) :
    d.policy = c.policy ∧ ∀ i ∈ is, i.before.policy = c.policy ∧ i.failure = none := by
  induction leads with
  | still tends => exact ⟨tends.policy, fun _ member => absurd member List.not_mem_nil⟩
  | @asks c d i rest tends active later leads ih =>
    obtain ⟨kept, others⟩ := ih stays
    have there : i.after.policy ≠ none := fun gone => stays (kept.trans gone)
    have well := Inquiry.fine_of_stays active there
    have same : i.after.policy = c.policy := by
      rw [i.after_fine well, i.reached_retains.policy, tends.policy]
    refine ⟨kept.trans same, List.forall_mem_cons.mpr ⟨⟨tends.policy, well⟩, fun j member => ?_⟩⟩
    obtain ⟨before, fine⟩ := others j member
    exact ⟨before.trans same, fine⟩

def Shares (c : SchedClass ω) (queue : QueueId) : Prop :=
  match c.policy with
  | some policy => policy.Pools queue
  | none => queue = globalQueue

theorem Shares.pools {policy : Policy ω} (shares : c.Shares queue) (active : c.policy = some policy) :
    policy.Pools queue := by
  unfold Shares at shares
  rwa [active] at shares

theorem Shares.isGlobal (shares : c.Shares queue) (free : c.policy = none) : queue = globalQueue := by
  unfold Shares at shares
  rwa [free] at shares

theorem Shares.congr (shares : c.Shares queue) (same : d.policy = c.policy) : d.Shares queue := by
  unfold Shares at shares ⊢
  rwa [same]

/-- From `c` to `d` these callbacks were made, and the line grew by what they were asked to enqueue. -/
def Grows (queue : QueueId) (c : SchedClass ω) (is : List (Inquiry ω)) (d : SchedClass ω) : Prop :=
  d.queues.line queue = c.queues.line queue ++ is.flatMap (·.enqueued queue)

theorem Grows.refl (c : SchedClass ω) : Grows queue c [] c := (List.append_nil _).symm

theorem Grows.trans {xs ys : List (Inquiry ω)} (first : Grows queue c xs d) (later : Grows queue d ys e) :
    Grows queue c (xs ++ ys) e := by
  unfold Grows at *
  rw [later, first, List.flatMap_append, List.append_assoc]

theorem Grows.one {i : Inquiry ω} (active : i.before.policy = some i.policy)
    (pools : i.policy.Pools queue) (later : i.matter ≠ .init)
    (other : ∀ cpu previous, i.matter ≠ .dispatch cpu previous) (settled : i.after = d)
    (stays : d.policy ≠ none) : Grows queue i.before [i] d := by
  subst settled
  have line := Inquiry.pooled_line pools later other (Inquiry.fine_of_stays active stays)
  simpa [Grows] using line

section

variable {policy : Policy ω} (active : c.policy = some policy) (pools : policy.Pools queue)

include active pools

theorem enable_grows {pid : Pid} (stays : (c.enable pid).policy ≠ none) :
    Grows queue c (c.enableInquiries pid) (c.enable pid) := by
  unfold enable enableWith enableInquiries at *
  rw [active] at stays ⊢
  cases named : c.task? pid with
  | none => exact .refl c
  | some task =>
    rw [named] at stays
    exact .one active pools (by simp) (by simp) (after_enable policy pid task) stays

theorem enqueueWith_grows {pid : Pid} {cpu : CpuId} {flags : UInt64}
    (stays : (c.enqueueWith policy pid cpu flags).policy ≠ none) :
    Grows queue c (c.enqueueWithInquiries policy pid cpu flags) (c.enqueueWith policy pid cpu flags) := by
  unfold enqueueWith enqueueWithInquiries at *
  cases named : c.task? pid with
  | none => exact .refl c
  | some task =>
    rw [named] at stays
    exact .one active pools (by simp) (by simp) (after_enqueue policy pid task cpu flags) stays

theorem halt_grows {cpu : CpuId} {task : Task} {runnable : Bool}
    (stays : (c.halt cpu task runnable).policy ≠ none) :
    Grows queue c (c.haltInquiries cpu task runnable) (c.halt cpu task runnable) := by
  unfold halt haltInquiries at *
  rw [active] at stays ⊢
  exact .one active pools (by simp) (by simp) (after_consult policy rfl (by simp)) stays

theorem chooseCpu_grows {task : Task} {flags : UInt64} {answer : CpuId × List Pid}
    (chosen : c.chooseCpu policy task flags = (.ok answer, d)) (stays : d.policy ≠ none) :
    Grows queue c [⟨c, policy, .selectCpu task flags⟩] d := by
  have settled := after_selectCpu (c := c) policy task flags
  rw [chosen] at settled
  exact .one active pools (by simp) (by simp) settled stays

theorem addTask_grows {task : Task} (stays : (c.addTask task).2.policy ≠ none) :
    Grows queue c (c.addTaskInquiries task) (c.addTask task).2 := by
  unfold addTask addTaskInquiries at *
  by_cases known : c.tasks.contains task.pid = true
  · simp only [if_pos known]
    exact .refl c
  · simp only [if_neg known] at stays ⊢
    have entered : (c.register task).policy = some policy := active
    exact enable_grows entered pools stays

theorem wake_grows {pid : Pid} {flags : UInt64} (stays : (c.wake pid flags).2.policy ≠ none) :
    Grows queue c (c.wakeInquiries pid flags) (c.wake pid flags).2 := by
  unfold wake wakeInquiries at *
  cases found : c.tasks.get? pid with
  | none => exact .refl c
  | some slot =>
    simp only [found] at stays ⊢
    by_cases awake : slot.state ≠ .sleeping
    · simp only [if_pos awake]
      exact .refl c
    simp only [if_neg awake] at stays ⊢
    have line : Grows queue c [] (c.setState pid .queued) := .refl c
    have there : (c.setState pid .queued).policy = some policy := active
    generalize c.setState pid .queued = d at *
    simp only [there] at stays ⊢
    cases chosen : d.chooseCpu policy slot.task flags with
    | mk answer e =>
      rw [chosen] at stays
      cases answer with
      | error reason => exact absurd (abort_policy e reason) stays
      | ok answer =>
        obtain ⟨cpu, placed⟩ := answer
        dsimp only at stays ⊢
        have retains := d.chooseCpu_retains policy slot.task flags
        rw [chosen] at retains
        have still : e.policy = some policy := retains.policy.trans there
        have first := chooseCpu_grows there pools chosen (by rw [still]; exact Option.some_ne_none _)
        have moved : (e.mapTask pid fun task => { task with lastCpu := cpu }).policy = some policy :=
          still
        by_cases direct : placed.contains pid = true
        · simp only [if_pos direct]
          exact line.trans first
        · simp only [if_neg direct] at stays ⊢
          exact line.trans (first.trans (enqueueWith_grows moved pools stays))

theorem enqueue_grows {pid : Pid} {flags : UInt64} (stays : (c.enqueue pid flags).2.policy ≠ none) :
    Grows queue c (c.enqueueInquiries pid flags) (c.enqueue pid flags).2 := by
  unfold enqueue enqueueInquiries at *
  cases found : c.tasks.get? pid with
  | none => exact .refl c
  | some slot =>
    simp only [found] at stays ⊢
    by_cases awake : slot.state ≠ .sleeping
    · simp only [if_pos awake]
      exact .refl c
    simp only [if_neg awake] at stays ⊢
    have line : Grows queue c [] (c.setState pid .queued) := .refl c
    have there : (c.setState pid .queued).policy = some policy := active
    generalize c.setState pid .queued = d at *
    simp only [there] at stays ⊢
    exact line.trans (enqueueWith_grows there pools stays)

theorem settleStopped_grows {cpu : CpuId} {pid : Pid} {runnable : Bool}
    (stays : (c.settleStopped cpu pid runnable).2.policy ≠ none) :
    Grows queue c (c.settleStoppedInquiries cpu pid runnable) (c.settleStopped cpu pid runnable).2 := by
  unfold settleStopped settleStoppedInquiries at *
  by_cases gone : c.state? pid ≠ some (.running cpu)
  · simp only [if_pos gone]
    exact .refl c
  simp only [if_neg gone] at stays ⊢
  cases runnable with
  | false => exact .refl c
  | true =>
    have line : Grows queue c [] (c.setState pid .queued) := .refl c
    have there : (c.setState pid .queued).policy = some policy := active
    generalize c.setState pid .queued = d at *
    simp only [there, Bool.not_true, Bool.false_eq_true, if_false] at stays ⊢
    exact line.trans (enqueueWith_grows there pools stays)

theorem stop_grows {cpu : CpuId} {ran : Nanos} {runnable : Bool}
    (stays : (c.stop cpu ran runnable).2.policy ≠ none) :
    Grows queue c (c.stopInquiries cpu ran runnable) (c.stop cpu ran runnable).2 := by
  unfold stop stopInquiries at *
  by_cases unknown : c.cpus ≤ cpu
  · simp only [if_pos unknown]
    exact .refl c
  simp only [if_neg unknown] at stays ⊢
  cases here : c.current? cpu with
  | none => exact .refl c
  | some pid =>
    simp only [here] at stays ⊢
    have line : Grows queue c [] (c.vacate cpu pid) := .refl c
    have there : (c.vacate cpu pid).policy = some policy := active
    generalize c.vacate cpu pid = d at *
    cases found : d.tasks.get? pid with
    | none => exact line
    | some slot =>
      simp only [found] at stays ⊢
      have charged : Grows queue d [] (d.mapTask pid fun _ => slot.task.charge ran) := .refl d
      have still : (d.mapTask pid fun _ => slot.task.charge ran).policy = some policy := there
      generalize d.mapTask pid (fun _ => slot.task.charge ran) = m at *
      -- The policy that is there in the end was there when the task had left.
      have halting := (m.halt_leads cpu (slot.task.charge ran) runnable).hears.policy_or
      have settling := (settleStopped_leads (m.halt cpu (slot.task.charge ran) runnable) cpu pid
        runnable).hears
      have halted : (m.halt cpu (slot.task.charge ran) runnable).policy ≠ none := fun gone =>
        stays (settling.none_left gone).2
      have held := (halting.resolve_right halted).trans still
      exact line.trans (charged.trans ((halt_grows still pools halted).trans
        (settleStopped_grows held pools stays)))

end

/-! Without a policy a task that gets ready goes to the end of the global line. -/

theorem enqueueGlobal_joins (sound : c.queues.WellFormed) (pid : Pid) :
    ∃ d, c.enqueueGlobal pid = .ok d ∧
      d.queues.line globalQueue = c.queues.line globalQueue ++ [pid] := by
  obtain ⟨r, pushed⟩ := Queues.push_global sound 0 pid
  obtain ⟨d, made⟩ : ∃ d, c.enqueueGlobal pid = .ok d := ⟨_, by rw [enqueueGlobal, pushed]⟩
  exact ⟨d, made, by rw [(enqueueGlobal_lines made).1, if_pos rfl]⟩

section

variable (free : c.policy = none) (sound : c.queues.WellFormed)

include free sound

omit sound in
theorem addTask_joins (task : Task) :
    (c.addTask task).2.queues.line globalQueue =
      c.queues.line globalQueue ++ c.readied (.addTask task) := by
  have freed : (c.register task).policy = none := free
  have same : (c.register task).queues = c.queues := rfl
  refine Eq.trans ?_ (List.append_nil _).symm
  unfold addTask
  split
  · rfl
  · simp only [enable, freed, same]

theorem wake_joins (pid : Pid) (flags : UInt64) :
    (c.wake pid flags).2.queues.line globalQueue =
      c.queues.line globalQueue ++ c.readied (.wake pid flags) := by
  unfold wake
  cases found : c.tasks.get? pid with
  | none => simp [readied, state?, found]
  | some slot =>
    have state : c.state? pid = some slot.state := by rw [state?, found]; rfl
    by_cases awake : slot.state ≠ .sleeping
    · simp [readied, state, awake]
    have there : (c.setState pid .queued).policy = none := free
    have same : (c.setState pid .queued).queues = c.queues := rfl
    obtain ⟨d, made, line⟩ := enqueueGlobal_joins (c := c.setState pid .queued) sound pid
    simp only [if_neg awake, there, made, line, same]
    simp [readied, state, awake]

theorem enqueue_joins (pid : Pid) (flags : UInt64) :
    (c.enqueue pid flags).2.queues.line globalQueue =
      c.queues.line globalQueue ++ c.readied (.enqueue pid flags) := by
  have asWoken : c.enqueue pid flags = c.wake pid flags := by
    have there : (c.setState pid .queued).policy = none := free
    unfold enqueue wake
    simp only [there]
  rw [asWoken]
  exact wake_joins free sound pid flags

theorem settleStopped_joins (cpu : CpuId) (pid : Pid) (runnable : Bool) :
    (c.settleStopped cpu pid runnable).2.queues.line globalQueue = c.queues.line globalQueue ++
      if runnable ∧ c.state? pid = some (.running cpu) then [pid] else [] := by
  unfold settleStopped
  by_cases runs : c.state? pid = some (.running cpu)
  · cases runnable with
    | false => simp [runs, setState]
    | true =>
      have there : (c.setState pid .queued).policy = none := free
      have same : (c.setState pid .queued).queues = c.queues := rfl
      obtain ⟨d, made, line⟩ := enqueueGlobal_joins (c := c.setState pid .queued) sound pid
      simp [runs, there, made, line, same]
  · simp [runs]

theorem stop_joins (cpu : CpuId) (ran : Nanos) (runnable : Bool) (backed : c.Backed []) :
    (c.stop cpu ran runnable).2.queues.line globalQueue =
      c.queues.line globalQueue ++ c.readied (.stop cpu ran runnable) := by
  unfold stop readied
  by_cases unknown : c.cpus ≤ cpu
  · simp [unknown, backed.free_beyond unknown]
  simp only [if_neg unknown]
  cases here : c.current? cpu with
  | none => simp
  | some pid =>
    have there : (c.vacate cpu pid).tasks = c.tasks := rfl
    simp only [there]
    cases found : c.tasks.get? pid with
    | none => simp [state?, found, vacate]; rfl
    | some slot =>
      have left : ((c.vacate cpu pid).mapTask pid fun _ => slot.task.charge ran).state? pid =
          c.state? pid := state?_mapTask ..
      have freed : ((c.vacate cpu pid).mapTask pid fun _ => slot.task.charge ran).policy = none := free
      have still : ((c.vacate cpu pid).mapTask pid fun _ => slot.task.charge ran).queues.line globalQueue =
          c.queues.line globalQueue := rfl
      have sound' : ((c.vacate cpu pid).mapTask pid fun _ => slot.task.charge ran).queues.WellFormed :=
        (Queues.setIdle_shifts sound cpu true).wellFormed
      dsimp only
      generalize (c.vacate cpu pid).mapTask pid (fun _ => slot.task.charge ran) = d at *
      have halted : d.halt cpu (slot.task.charge ran) runnable = d := by rw [halt, freed]
      rw [halted, settleStopped_joins freed sound', still, left]
      simp [List.filter_singleton]

end

end SchedClass

end LoadableSched
