import LoadableSched.Proofs.Policy.Draining

/-!
Policies that give a waking task to a processor if that was idle and is now claimed, and that touch what
belongs to the processors in no other way than by filling the line of one that asks.
-/

namespace LoadableSched

variable {ω α β : Type}

namespace Queues

variable {q : Queues}

theorem isIdle_iff {cpu : CpuId} : q.isIdle cpu = true ↔ q.idle[cpu]? = some true := by
  cases found : q.idle[cpu]? <;> simp [isIdle, found]

theorem isIdle_setIdle {cpu : CpuId} (known : cpu < q.idle.length) (idle : Bool) (other : CpuId) :
    (q.setIdle cpu idle).isIdle other = if other = cpu then idle else q.isIdle other := by
  simp only [isIdle, setIdle, List.getElem?_set]
  by_cases here : cpu = other
  · subst here
    simp [known]
  · simp [here, Ne.symm here]

theorem selectCpu_cases (q : Queues) (previous : CpuId) :
    (∃ cpu, q.selectCpu previous = ((cpu, true), q.setIdle cpu false) ∧ q.isIdle cpu = true ∧
      (previous < q.cpus → q.isIdle previous = true → cpu = previous)) ∨
    (∃ cpu, q.selectCpu previous = ((cpu, false), q)) ∧ ∀ cpu, q.isIdle cpu = false := by
  by_cases own : previous < q.cpus ∧ q.isIdle previous = true
  · have idle := isIdle_iff.mp own.2
    exact .inl ⟨previous, by simp [selectCpu, claim, own.1, idle, setIdle], own.2, fun _ _ => rfl⟩
  have tried : (if previous < q.cpus then q.claim previous else (false, q)) = (false, q) := by
    split
    · rename_i known
      exact if_neg fun idle => own ⟨known, isIdle_iff.mpr idle⟩
    · rfl
  cases found : q.idle.findIdx? id with
  | none =>
    refine .inr ⟨⟨min previous (q.cpus - 1), by simp [selectCpu, tried, claimAny, found]⟩, fun cpu => ?_⟩
    rw [← Bool.not_eq_true, isIdle_iff]
    intro idle
    cases List.findIdx?_eq_none_iff.mp found true (List.mem_of_getElem? idle)
  | some cpu =>
    obtain ⟨inside, idle, _⟩ := List.findIdx?_eq_some_iff_getElem.mp found
    refine .inl ⟨cpu, by simp [selectCpu, tried, claimAny, found, setIdle], ?_, fun known idle => ?_⟩
    · rw [isIdle_iff, List.getElem?_eq_getElem inside]
      exact congrArg some idle
    · exact absurd ⟨known, idle⟩ own

end Queues

namespace Callback

structure Aloof (c : Callback ω α) : Prop where
  locals : ∀ cpu now p, (c.run cpu now p).2.queues.locals = p.queues.locals
  idle : ∀ cpu now p, (c.run cpu now p).2.queues.idle = p.queues.idle

namespace Aloof

theorem sequence {c : Callback ω α} {f : α → Callback ω β} (first : c.Aloof)
    (later : ∀ value, (f value).Aloof) : (c >>= f).Aloof where
  locals cpu now p := by
    rw [run_sequence]
    exact ((later _).locals cpu now _).trans (first.locals cpu now p)
  idle cpu now p := by
    rw [run_sequence]
    exact ((later _).idle cpu now _).trans (first.idle cpu now p)

theorem of_queues {c : Callback ω α} (same : ∀ cpu now p, (c.run cpu now p).2.queues = p.queues) :
    c.Aloof where
  locals cpu now p := by rw [same]
  idle cpu now p := by rw [same]

theorem done (value : α) : (pure value : Callback ω α).Aloof := of_queues fun _ _ _ => rfl

theorem update (f : ω → α × ω) : (update f).Aloof := of_queues fun _ _ _ => rfl

theorem stamp (map : StoreId) (pid : Pid) : (stamp map pid).Aloof := of_queues fun _ _ _ => rfl

theorem tally (counters : Nat) (amounts : List (Counter × UInt64)) : (tally counters amounts).Aloof :=
  of_queues fun _ _ _ => rfl

theorem place (pid : Pid) (queue : QueueId) (slice : Nanos) :
    (place pid queue slice : Callback ω _).Aloof :=
  of_queues fun _ _ p => p.dispatch_queues ⟨pid, queue, slice⟩

theorem create (id : Int64) : (create id : Callback ω _).Aloof := by
  have attempt : ∀ (s : Queues) (queue : QueueId),
      (if s.shared.contains queue then
        ((.error (.queueExists queue), s) : Except ClassError QueueId × Queues)
      else (.ok queue, { s with shared := s.shared.insert queue [] })).2.locals = s.locals ∧
      (if s.shared.contains queue then
        ((.error (.queueExists queue), s) : Except ClassError QueueId × Queues)
      else (.ok queue, { s with shared := s.shared.insert queue [] })).2.idle = s.idle := by
    intro s queue
    split <;> exact ⟨rfl, rfl⟩
  have both : ∀ q : Queues, (q.create id).2.locals = q.locals ∧ (q.create id).2.idle = q.idle := by
    intro q
    unfold Queues.create
    split
    · exact attempt { q with nextFree := q.firstFree q.shared.size q.nextFree } _
    · split
      · exact ⟨rfl, rfl⟩
      · exact attempt q _
  exact ⟨fun _ _ p => (both p.queues).1, fun _ _ p => (both p.queues).2⟩

theorem createOr (id : Int64) {next : Callback ω Int} (later : next.Aloof) :
    (Fifo.createOr id next).Aloof := by
  refine .sequence (.create id) fun answer => ?_
  cases answer with
  | ok queue => exact later
  | error e => exact .done _

end Aloof

theorem take_idle (queue : QueueId) (cpu : CpuId) (now : Nanos) (p : Progress ω) :
    ((take queue).run cpu now p).2.queues.idle = p.queues.idle := by
  rw [run_take, Progress.consume]
  split
  · rename_i moved
    unfold Queues.moveToLocal Queues.pop at moved
    split at moved
    · cases moved
    · cases found : p.queues.shared.get? queue with
      | none => simp [found] at moved
      | some pids =>
        cases pids <;> simp only [found, List.head?_nil, List.head?_cons] at moved <;>
          cases Except.ok.inj moved <;> rfl
  · rfl

theorem pick_claims {previous cpu : CpuId} {now : Nanos} {q : Queues} {m : ω} {pid : Pid}
    (direct : CpuId → Callback ω CpuId)
    (places : ∀ r chosen, ∃ slice m', (direct chosen).run cpu now ⟨r, [], none, m⟩ =
      (chosen, ⟨r, [⟨pid, localQueue, slice⟩], none, m'⟩)) :
    ∃ slice m', (Callback.pickCpu previous >>= fun choice =>
        if choice.2 then direct choice.1 else pure choice.1).run cpu now ⟨q, [], none, m⟩ =
      ((q.selectCpu previous).1.1, ⟨(q.selectCpu previous).2,
        if (q.selectCpu previous).1.2 then [⟨pid, localQueue, slice⟩] else [], none, m'⟩) := by
  rw [run_sequence, run_pickCpu]
  by_cases idle : (q.selectCpu previous).1.2 = true
  · obtain ⟨slice, m', ran⟩ := places (q.selectCpu previous).2 (q.selectCpu previous).1.1
    exact ⟨slice, m', by rw [if_pos idle, if_pos idle, ran]⟩
  · exact ⟨0, m, by rw [if_neg idle, if_neg idle]; rfl⟩

end Callback

/-- A policy that serves these queues, and that gives a waking task to a processor exactly if there is an
idle one, which is claimed for the task. -/
structure Policy.Directs (policy : Policy ω) (order : List QueueId) : Prop where
  drains : policy.Drains order
  init : policy.init.Aloof
  selectCpu : ∀ cpu now q m task previous flags, ∃ slice m',
    (policy.selectCpu task previous flags).run cpu now ⟨q, [], none, m⟩ =
      ((q.selectCpu previous).1.1, ⟨(q.selectCpu previous).2,
        if (q.selectCpu previous).1.2 then [⟨task.pid, localQueue, slice⟩] else [], none, m'⟩)
  enqueue : ∀ task flags, (policy.enqueue task flags).Aloof
  dispatch : ∀ cpu now p asked previous,
    ((policy.dispatch asked previous).run cpu now p).2.queues.idle = p.queues.idle
  stopping : ∀ task runnable, (policy.stopping task runnable).Aloof
  enable : ∀ task, (policy.enable task).Aloof

theorem Fifo.directs : (Fifo.policy ω).Directs [Fifo.queue] where
  drains := Fifo.drains
  init := .createOr 0 (.done 0)
  selectCpu _ _ _ m task _ _ := by
    refine Callback.pick_claims (fun chosen => do
      Callback.place task.pid localQueue defaultSlice
      return chosen) ?_
    intro s chosen
    exact ⟨defaultSlice, m, by simp [dispatch_local]⟩
  enqueue _ _ := .place _ _ _
  dispatch cpu now p _ _ := Callback.take_idle Fifo.queue cpu now p
  stopping _ _ := .done _
  enable _ := .done _

theorem RoundRobin.directs (r : RoundRobin) : r.policy.Directs [RoundRobin.queue] where
  drains := r.drains
  init := .createOr 0 (.done 0)
  selectCpu _ _ _ _ task _ _ := by
    refine Callback.pick_claims (fun chosen => do
      stamp r.enqueueTime task.pid
      Callback.place task.pid localQueue r.slice
      tally r.counters Counters.recordDirectDispatch
      return chosen) ?_
    intro s chosen
    exact ⟨r.slice, _, by simp [dispatch_local]; rfl⟩
  enqueue _ _ := .sequence (.place _ _ _) fun _ => .stamp _ _
  dispatch cpu now p _ _ := Callback.take_idle RoundRobin.queue cpu now p
  stopping _ _ := .tally _ _
  enable _ := .done _

theorem IoPriority.directs (p : IoPriority) : p.policy.Directs [prioQueue, normalQueue] where
  drains := p.drains
  init := .createOr 1 (.createOr 0 (.done 0))
  selectCpu _ _ _ _ task _ _ := by
    refine Callback.pick_claims (fun chosen => do
      stamp p.maps.enqueueTime task.pid
      Callback.place task.pid localQueue p.slice
      tally p.counters Counters.recordDirectDispatch
      return chosen) ?_
    intro s chosen
    exact ⟨p.slice, _, by simp [dispatch_local]; rfl⟩
  enqueue _ _ := by
    refine .sequence (.update _) fun bound => ?_
    cases bound with
    | true => exact .sequence (.place _ _ _) fun _ => .stamp _ _
    | false => exact .sequence (.place _ _ _) fun _ => .stamp _ _
  dispatch cpu now s _ _ := Callback.take_idle _ cpu now s
  stopping _ _ := by
    refine .sequence ?_ fun value => .sequence (.update _) fun _ => .tally _ _
    unfold IoPriority.recorded
    cases p.model with
    | lastSample => exact .done _
    | average weight initial => exact .sequence (.update _) fun _ => .done _
  enable _ := .done _

theorem Policy.IsShipped.directs {policy : Policy Memory} (shipped : policy.IsShipped) :
    ∃ order, policy.Directs order := by
  cases shipped with
  | fifo => exact ⟨_, Fifo.directs⟩
  | roundRobin r => exact ⟨_, r.directs⟩
  | ioPriority p => exact ⟨_, p.directs⟩

end LoadableSched
