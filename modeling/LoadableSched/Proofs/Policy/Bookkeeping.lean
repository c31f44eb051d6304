import LoadableSched.Proofs.Policy.Prioritizing

/-!
What a policy notes in its memory when a task gets ready, starts and stops, apart from what it does with the
queues.
-/

namespace LoadableSched

variable {ω : Type}

/-- What a policy notes when it has a task placed at a time, when a task starts, and when the record of one is
handed over that stops. -/
structure Bookkeeping (ω : Type) where
  ready : Placement → Nanos → ω → ω → Prop
  start : Pid → Nanos → ω → ω → Prop
  halt : Task → ω → ω → Prop

/-- What a callback may ask to be placed, and what memory it may leave. A task that is to be enqueued is placed
once, and one for which a processor is chosen once at most; nothing else is placed. -/
inductive Bookkeeping.Allows (b : Bookkeeping ω) (now : Nanos) (m : ω) :
    Matter → List Placement → ω → Prop where
  | leaves (task : Task) (flags : UInt64) : Allows b now m (.selectCpu task flags) [] m
  | chooses {task : Task} {flags : UInt64} {p : Placement} {m' : ω} (pid : p.pid = task.pid)
      (ready : b.ready p now m m') : Allows b now m (.selectCpu task flags) [p] m'
  | enqueues {pid : Pid} {task : Task} {cpu : CpuId} {flags : UInt64} {p : Placement} {m' : ω}
      (same : p.pid = task.pid) (ready : b.ready p now m m') :
      Allows b now m (.enqueue pid task cpu flags) [p] m'
  | refills (cpu : CpuId) (previous : Option Task) : Allows b now m (.dispatch cpu previous) [] m
  | starts {cpu : CpuId} {task : Task} {m' : ω} (start : b.start task.pid now m m') :
      Allows b now m (.running cpu task) [] m'
  | halts {cpu : CpuId} {task : Task} {runnable : Bool} {m' : ω} (halt : b.halt task m m') :
      Allows b now m (.stopping cpu task runnable) [] m'
  | enables (pid : Pid) (task : Task) : Allows b now m (.enable pid task) [] m

namespace SchedClass

theorem Inquiry.asks_and_leaves (c : SchedClass ω) (policy : Policy ω) (matter : Matter) {α : Type}
    {f : α → Answer} {body : Callback ω α} (answer : policy.answer matter = f <$> body) :
    dispatches ⟨c, policy, matter⟩ =
        ((body.requests matter.cpu c.clock ⟨c.queues, [], none, c.memory⟩).map (·.2)).filterMap
          Request.placement? ∧
      (called ⟨c, policy, matter⟩).memory =
        (body.run matter.cpu c.clock ⟨c.queues, [], none, c.memory⟩).2.memory := by
  constructor
  · rw [dispatches, requests, answer, Callback.requests_map, List.filterMap_map]
    rfl
  · rw [called, ran, answer, invoke_map]
    rfl

end SchedClass

open SchedClass in
/-- A policy that does no more with its memory than what is noted there. -/
structure Policy.Records (policy : Policy ω) (b : Bookkeeping ω) : Prop where
  init : ∀ now p, (policy.init.run 0 now p).2.memory = p.memory
  allows : ∀ (c : SchedClass ω) (matter : Matter), matter ≠ .init →
    b.Allows c.clock c.memory matter (Inquiry.dispatches ⟨c, policy, matter⟩)
      (Inquiry.called ⟨c, policy, matter⟩).memory

open SchedClass in
theorem Policy.Records.keeps {policy : Policy ω} {b : Bookkeeping ω} (records : policy.Records b)
    {Q : ω → Prop} (ready : ∀ p now m m', b.ready p now m m' → Q m → Q m')
    (start : ∀ pid now m m', b.start pid now m m' → Q m → Q m')
    (halt : ∀ task m m', b.halt task m m' → Q m → Q m') {i : Inquiry ω} (same : i.policy = policy)
    (holds : Q i.before.memory) : Q i.called.memory := by
  obtain ⟨c, _, matter⟩ := i
  subst same
  by_cases first : matter = .init
  · subst first
    have left : (Inquiry.called ⟨c, _, .init⟩).memory = c.memory :=
      (Inquiry.asks_and_leaves c _ .init rfl).2.trans (records.init _ _)
    rwa [left]
  · have allows := records.allows c matter first
    generalize Inquiry.dispatches ⟨c, _, matter⟩ = made at allows
    generalize (Inquiry.called ⟨c, _, matter⟩).memory = m' at allows ⊢
    cases allows with
    | leaves | refills | enables => exact holds
    | chooses _ made => exact ready _ _ _ _ made holds
    | enqueues _ made => exact ready _ _ _ _ made holds
    | starts made => exact start _ _ _ _ made holds
    | halts made => exact halt _ _ _ made holds

theorem records_of_callbacks {policy : Policy ω} {b : Bookkeeping ω}
    (init : ∀ now p, (policy.init.run 0 now p).2.memory = p.memory)
    (selectCpu : ∀ cpu now (p : Progress ω) task flags, b.Allows now p.memory (.selectCpu task flags)
      ((((policy.selectCpu task task.lastCpu flags).requests cpu now p).map (·.2)).filterMap
        Request.placement?)
      ((policy.selectCpu task task.lastCpu flags).run cpu now p).2.memory)
    (enqueue : ∀ cpu now (p : Progress ω) task flags, ∃ placed : Placement,
      ((policy.enqueue task flags).requests cpu now p).map (·.2) = [.place placed] ∧
        placed.pid = task.pid ∧
        b.ready placed now p.memory ((policy.enqueue task flags).run cpu now p).2.memory)
    (dispatch : ∀ cpu now (p : Progress ω) previous,
      (((policy.dispatch cpu previous).requests cpu now p).map (·.2)).filterMap Request.placement? = [] ∧
        ((policy.dispatch cpu previous).run cpu now p).2.memory = p.memory)
    (running : ∀ cpu now (p : Progress ω) task, (policy.running task).requests cpu now p = [] ∧
      b.start task.pid now p.memory ((policy.running task).run cpu now p).2.memory)
    (stopping : ∀ cpu now (p : Progress ω) task runnable,
      (policy.stopping task runnable).requests cpu now p = [] ∧
        b.halt task p.memory ((policy.stopping task runnable).run cpu now p).2.memory)
    (enable : ∀ task, policy.enable task = .done task) : policy.Records b where
  init := init
  allows c matter later := by
    cases matter with
    | init => exact absurd rfl later
    | selectCpu task flags =>
      obtain ⟨asked, left⟩ := SchedClass.Inquiry.asks_and_leaves c policy (.selectCpu task flags) rfl
      rw [asked, left]
      exact selectCpu task.lastCpu c.clock ⟨c.queues, [], none, c.memory⟩ task flags
    | enqueue pid task cpu flags =>
      obtain ⟨asked, left⟩ := SchedClass.Inquiry.asks_and_leaves c policy (.enqueue pid task cpu flags) rfl
      obtain ⟨placed, one, same, ready⟩ :=
        enqueue cpu c.clock ⟨c.queues, [], none, c.memory⟩ task flags
      rw [asked, left, Matter.cpu, one]
      exact .enqueues same ready
    | dispatch cpu previous =>
      obtain ⟨asked, left⟩ := SchedClass.Inquiry.asks_and_leaves c policy (.dispatch cpu previous) rfl
      obtain ⟨nothing, kept⟩ := dispatch cpu c.clock ⟨c.queues, [], none, c.memory⟩ previous
      rw [asked, left, Matter.cpu, nothing, kept]
      exact .refills cpu previous
    | running cpu task =>
      obtain ⟨asked, left⟩ := SchedClass.Inquiry.asks_and_leaves c policy (.running cpu task) rfl
      obtain ⟨nothing, start⟩ := running cpu c.clock ⟨c.queues, [], none, c.memory⟩ task
      rw [asked, left, Matter.cpu, nothing]
      exact .starts start
    | stopping cpu task runnable =>
      obtain ⟨asked, left⟩ := SchedClass.Inquiry.asks_and_leaves c policy (.stopping cpu task runnable) rfl
      obtain ⟨nothing, halt⟩ := stopping cpu c.clock ⟨c.queues, [], none, c.memory⟩ task runnable
      rw [asked, left, Matter.cpu, nothing]
      exact .halts halt
    | enable pid task =>
      obtain ⟨asked, left⟩ := SchedClass.Inquiry.asks_and_leaves c policy (.enable pid task) rfl
      rw [asked, left, enable]
      exact .enables pid task

theorem pick_allows {b : Bookkeeping ω} {task : Task} {flags : UInt64}
    (direct : CpuId → Callback ω CpuId)
    (places : ∀ cpu now (p : Progress ω) chosen, ∃ placed : Placement,
      ((direct chosen).requests cpu now p).map (·.2) = [.place placed] ∧ placed.pid = task.pid ∧
        b.ready placed now p.memory ((direct chosen).run cpu now p).2.memory)
    (cpu : CpuId) (now : Nanos) (p : Progress ω) :
    let chosen := Callback.pickCpu task.lastCpu >>= fun choice =>
      if choice.2 then direct choice.1 else pure choice.1
    b.Allows now p.memory (.selectCpu task flags)
      (((chosen.requests cpu now p).map (·.2)).filterMap Request.placement?)
      (chosen.run cpu now p).2.memory := by
  intro chosen
  simp only [chosen]
  rw [Callback.requests_sequence, Callback.run_sequence, Callback.run_pickCpu]
  by_cases idle : (p.queues.selectCpu task.lastCpu).1.2 = true
  · rw [if_pos idle]
    obtain ⟨placed, asked, same, ready⟩ := places cpu now
      { p with queues := (p.queues.selectCpu task.lastCpu).2 } (p.queues.selectCpu task.lastCpu).1.1
    have nothing : (Callback.pickCpu task.lastCpu).requests cpu now p = [] := rfl
    rw [nothing, List.nil_append, asked]
    exact .chooses same ready
  · rw [if_neg idle]
    exact .leaves task flags

theorem Progress.dispatch_memory (p : Progress ω) (placement : Placement) :
    (p.dispatch placement).memory = p.memory := by
  unfold dispatch
  split <;> rfl

theorem Fifo.createOr_memory {id : Int64} {next : Callback ω Int}
    (keeps : ∀ cpu now (p : Progress ω), (next.run cpu now p).2.memory = p.memory) (cpu : CpuId)
    (now : Nanos) (p : Progress ω) : ((createOr id next).run cpu now p).2.memory = p.memory := by
  unfold createOr
  rw [Callback.run_sequence, Callback.run_create]
  dsimp only
  split
  · exact keeps cpu now _
  · rfl

namespace RoundRobin

def bookkeeping (r : RoundRobin) : Bookkeeping Memory where
  ready p now m m' :=
    let stamped := m.write r.enqueueTime p.pid now
    p = ⟨p.pid, localQueue, r.slice⟩ ∧ m' = stamped.count r.counters Counters.recordDirectDispatch ∨
      p = ⟨p.pid, queue, r.slice⟩ ∧ m' = stamped
  start pid now m m' :=
    m' = match m.read r.enqueueTime pid with
      | (none, m) => m
      | (some since, m) => m.count r.counters (Counters.recordWait (subSat now since))
  halt task m m' :=
    m' = m.count r.counters (Counters.recordSlice (Usage.used r.slice task.slice) r.slice)

theorem records (r : RoundRobin) : r.policy.Records r.bookkeeping := by
  refine records_of_callbacks (fun now p => Fifo.createOr_memory (fun _ _ _ => rfl) 0 now p)
    (fun cpu now p task flags => ?_) (fun cpu now p task flags => ⟨_, rfl, rfl, .inr ⟨rfl, ?_⟩⟩)
    (fun cpu now p previous => ⟨rfl, ?_⟩) (fun cpu now p task => ?_) (fun _ _ _ _ _ => ⟨rfl, rfl⟩)
    fun _ => rfl
  · refine pick_allows (fun chosen => do
      stamp r.enqueueTime task.pid
      Callback.place task.pid localQueue r.slice
      tally r.counters Counters.recordDirectDispatch
      return chosen) ?_ cpu now p
    intro cpu now p chosen
    exact ⟨_, rfl, rfl, .inl ⟨rfl, by simp [dispatch_local]⟩⟩
  · simp only [RoundRobin.policy, Callback.run_sequence, Callback.run_place, run_stamp,
      Progress.dispatch_memory]
  · simp only [RoundRobin.policy, Callback.run_sequence, Callback.run_take, Progress.consume]
    split <;> rfl
  · simp only [RoundRobin.policy, bookkeeping]
    rw [Callback.requests_sequence, Callback.run_sequence, run_lookUp]
    generalize p.memory.read r.enqueueTime task.pid = found
    obtain ⟨_ | since, m⟩ := found <;> exact ⟨rfl, rfl⟩

end RoundRobin

namespace IoPriority

def noted (p : IoPriority) (pid : Pid) (sample : Nanos) (m : Memory) : Memory :=
  let (value, m) :=
    match p.model with
    | .lastSample => (sample, m)
    | .average weight initial =>
      let (previous, m) := m.read p.maps.sliceUsage pid
      (Usage.average (previous.getD initial) sample weight, m)
  (m.write p.maps.sliceUsage pid value).count p.counters (Counters.recordSlice sample p.slice)

def bookkeeping (p : IoPriority) : Bookkeeping Memory where
  ready placed now m m' :=
    placed = ⟨placed.pid, localQueue, p.slice⟩ ∧
        m' = (m.write p.maps.enqueueTime placed.pid now).count p.counters Counters.recordDirectDispatch ∨
      placed = p.lane (p.isIoBound placed.pid m).1 placed.pid ∧
        m' = (p.isIoBound placed.pid m).2.write p.maps.enqueueTime placed.pid now
  start pid now m m' :=
    m' = match m.read p.maps.enqueueTime pid with
      | (none, m) => m
      | (some since, m) =>
        let wait := subSat now since
        let (bound, m) := p.isIoBound pid m
        let lane := if bound then Counters.recordPrioWait wait else Counters.recordNormalWait wait
        (m.count p.counters lane).count p.counters (Counters.recordWait wait)
  halt task m m' := m' = p.noted task.pid (Usage.used p.slice task.slice) m

theorem lane_pid (p : IoPriority) (bound : Bool) (pid : Pid) : (p.lane bound pid).pid = pid := by
  cases bound <;> rfl

theorem records (p : IoPriority) : p.policy.Records p.bookkeeping := by
  refine records_of_callbacks (fun now s => ?_) (fun cpu now s task flags => ?_)
    (fun cpu now s task flags => ?_) (fun cpu now s previous => ?_) (fun cpu now s task => ?_)
    (fun cpu now s task runnable => ?_) fun _ => rfl
  · exact Fifo.createOr_memory (fun cpu now s => Fifo.createOr_memory (fun _ _ _ => rfl) cpu now s) 0 now s
  · refine pick_allows (fun chosen => do
      stamp p.maps.enqueueTime task.pid
      Callback.place task.pid localQueue p.slice
      tally p.counters Counters.recordDirectDispatch
      return chosen) ?_ cpu now s
    intro cpu now s chosen
    exact ⟨_, rfl, rfl, .inl ⟨rfl, by simp [dispatch_local]⟩⟩
  · refine ⟨_, (p.enqueue_requests cpu now s task flags).2, p.lane_pid _ _, .inr ?_⟩
    rw [lane_pid]
    refine ⟨rfl, ?_⟩
    simp only [IoPriority.policy]
    rw [Callback.run_sequence, Callback.run_update]
    by_cases bound : (p.isIoBound task.pid s.memory).1 = true
    · rw [if_pos bound]
      simp only [Callback.run_sequence, Callback.run_place, run_stamp,
        Progress.dispatch_memory]
    · rw [if_neg bound]
      simp only [Callback.run_sequence, Callback.run_place, run_stamp,
        Progress.dispatch_memory]
  · refine ⟨rfl, ?_⟩
    simp only [IoPriority.policy]
    rw [Callback.run_sequence, Callback.run_length]
    simp only [Callback.run_sequence, Callback.run_take, Progress.consume]
    split <;> rfl
  · simp only [IoPriority.policy, bookkeeping]
    rw [Callback.requests_sequence, Callback.run_sequence, run_lookUp]
    generalize s.memory.read p.maps.enqueueTime task.pid = found
    obtain ⟨_ | since, m⟩ := found
    · exact ⟨rfl, rfl⟩
    · dsimp only
      rw [Callback.requests_sequence, Callback.run_sequence, Callback.run_here, Callback.requests_sequence,
        Callback.run_sequence, Callback.run_update]
      by_cases bound : (p.isIoBound task.pid m).1 = true
      · rw [if_pos bound, if_pos bound]
        exact ⟨rfl, rfl⟩
      · rw [if_neg bound, if_neg bound]
        exact ⟨rfl, rfl⟩
  · simp only [IoPriority.policy, recorded, bookkeeping, noted]
    cases p.model <;> exact ⟨rfl, rfl⟩

end IoPriority

end LoadableSched
