import LoadableSched.Policy.Shipped
import LoadableSched.Proofs.Class.Focusing
import LoadableSched.Proofs.Class.Standing

/-!
The policies that come with the host keep the rules of the class, whatever their settings and whatever
their maps hold.
-/

namespace LoadableSched

variable {ω : Type}

namespace Queues

variable {q r : Queues}

theorem has_local (q : Queues) : q.has localQueue = true := by simp [has]

theorem Stocks.has {own : List QueueId} (stocks : q.Stocks own) {queue : QueueId}
    (member : queue ∈ own) : q.has queue = true := by
  simp [Queues.has, stocks queue member]

theorem create_fresh (id : Int64) {queue : QueueId} (number : 0 ≤ id.toInt)
    (named : UInt64.ofNat id.toInt.toNat = queue) (fresh : q.shared.contains queue ≠ true) :
    q.create id = (.ok queue, { q with shared := q.shared.insert queue [] }) := by
  have counts : id.toInt ≠ -1 := by omega
  simp only [create, named, if_neg counts, if_neg (Int.not_lt.mpr number), if_neg fresh]

end Queues

namespace Progress

variable {p : Progress ω}

theorem dispatch_asks {queue : QueueId} (none : p.Asks []) (has : p.queues.has queue = true)
    (pid : Pid) (slice : Nanos) : (p.dispatch ⟨pid, queue, slice⟩).Asks [⟨pid, queue, slice⟩] := by
  unfold dispatch
  rw [if_pos has]
  exact ⟨none.error, by simp [none.placements]⟩

theorem consume_asks {queue : QueueId} {cpu : CpuId} {placements : List Placement}
    (asks : p.Asks placements) (present : p.queues.shared.contains queue = true)
    (known : cpu < p.queues.cpus) : (p.consume queue cpu).2.Asks placements := by
  obtain ⟨moved, r, done⟩ := Queues.moveToLocal_ok present known
  simp only [consume, done]
  exact ⟨asks.error, asks.placements⟩

end Progress

theorem pick_conforms {q : Queues} (sound : q.WellFormed) {previous : CpuId} (known : previous < q.cpus)
    {cpu : CpuId} {now : Nanos} {m : ω} {pid : Pid} (direct : CpuId → Callback ω CpuId)
    (places : ∀ r chosen, ∃ slice m', (direct chosen).run cpu now ⟨r, [], none, m⟩ =
      (chosen, ⟨r, [⟨pid, localQueue, slice⟩], none, m'⟩)) :
    ((Callback.pickCpu previous >>= fun choice =>
        if choice.2 then direct choice.1 else pure choice.1).run cpu now ⟨q, [], none, m⟩).1 < q.cpus ∧
      ∃ slices : Option Nanos, ((Callback.pickCpu previous >>= fun choice =>
        if choice.2 then direct choice.1 else pure choice.1).run cpu now ⟨q, [], none, m⟩).2.Asks
          (slices.toList.map fun slice => ⟨pid, localQueue, slice⟩) := by
  have chosen := Queues.selectCpu_lt sound known
  rw [Callback.run_sequence, Callback.run_pickCpu]
  by_cases idle : (q.selectCpu previous).1.2 = true
  · obtain ⟨slice, m', ran⟩ := places (q.selectCpu previous).2 (q.selectCpu previous).1.1
    rw [if_pos idle, ran]
    exact ⟨chosen, some slice, rfl, rfl⟩
  · rw [if_neg idle]
    exact ⟨chosen, none, rfl, rfl⟩

theorem dispatch_local (p : Progress ω) (pid : Pid) (slice : Nanos) :
    p.dispatch ⟨pid, localQueue, slice⟩ =
      { p with placements := p.placements ++ [⟨pid, localQueue, slice⟩] } := by
  simp [Progress.dispatch, Queues.has_local]

theorem Fifo.run_createOr (id : Int64) {queue : QueueId} (number : 0 ≤ id.toInt)
    (named : UInt64.ofNat id.toInt.toNat = queue) {p : Progress ω}
    (fresh : p.queues.shared.contains queue ≠ true) (cpu : CpuId) (now : Nanos)
    (next : Callback ω Int) :
    (createOr id next).run cpu now p = next.run cpu now
      { p with queues := { p.queues with shared := p.queues.shared.insert queue [] } } := by
  unfold createOr
  rw [Callback.run_sequence, Callback.run_create, Queues.create_fresh id number named fresh]

theorem Fifo.conforms : (Fifo.policy ω).Conforms [Fifo.queue] where
  shared := by simp [Fifo.queue, localQueue]
  init now q m only := by
    have fresh : q.shared.contains Fifo.queue ≠ true := fun present =>
      absurd (only _ present) (by decide)
    have ran := Fifo.run_createOr 0 (by decide) (by decide) (p := ⟨q, [], none, m⟩) fresh 0 now
      (pure 0)
    simp only [Fifo.policy, ran]
    refine ⟨rfl, ⟨rfl, rfl⟩, ?_⟩
    intro queue member
    simp [Table.contains_insert, List.mem_singleton.mp member]
  selectCpu cpu now q m task previous flags _ sound known := by
    refine pick_conforms sound known (fun chosen => do
      Callback.place task.pid localQueue defaultSlice
      return chosen) ?_
    intro r chosen
    exact ⟨defaultSlice, m, by simp [dispatch_local]⟩
  enqueue cpu now q m task flags stocks := by
    refine ⟨Fifo.queue, List.mem_singleton_self _, defaultSlice, ?_⟩
    exact Progress.dispatch_asks ⟨rfl, rfl⟩ (stocks.has (List.mem_singleton_self _)) _ _
  dispatch cpu now q m previous stocks known :=
    Progress.consume_asks ⟨rfl, rfl⟩ (stocks _ (List.mem_singleton_self _)) known
  running _ _ _ _ _ _ := ⟨rfl, rfl⟩
  stopping _ _ _ _ _ _ _ := ⟨rfl, rfl⟩
  enable _ _ _ _ _ _ := ⟨rfl, rfl, rfl⟩

/-! Stamps, counters and maps change nothing but the memory. -/

section

variable (cpu : CpuId) (now : Nanos) (p : Progress Memory)

@[simp] theorem run_stamp (map : StoreId) (pid : Pid) :
    (stamp map pid).run cpu now p = ((), { p with memory := p.memory.write map pid now }) := rfl

@[simp] theorem run_tally (counters : Nat) (amounts : List (Counter × UInt64)) :
    (tally counters amounts).run cpu now p =
      ((), { p with memory := p.memory.count counters amounts }) := rfl

@[simp] theorem run_lookUp (map : StoreId) (pid : Pid) :
    (lookUp map pid).run cpu now p =
      ((p.memory.read map pid).1, { p with memory := (p.memory.read map pid).2 }) := rfl

end

theorem RoundRobin.conforms (r : RoundRobin) : r.policy.Conforms [RoundRobin.queue] where
  shared := by simp [RoundRobin.queue, localQueue]
  init now q m only := by
    have fresh : q.shared.contains RoundRobin.queue ≠ true := fun present =>
      absurd (only _ present) (by decide)
    have ran := Fifo.run_createOr 0 (by decide) (by decide) (p := ⟨q, [], none, m⟩) fresh 0 now
      (pure 0)
    simp only [RoundRobin.policy, ran]
    refine ⟨rfl, ⟨rfl, rfl⟩, ?_⟩
    intro queue member
    simp [Table.contains_insert, List.mem_singleton.mp member]
  selectCpu cpu now q m task previous flags _ sound known := by
    refine pick_conforms sound known (fun chosen => do
      stamp r.enqueueTime task.pid
      Callback.place task.pid localQueue r.slice
      tally r.counters Counters.recordDirectDispatch
      return chosen) ?_
    intro s chosen
    exact ⟨r.slice, _, by simp [dispatch_local]; rfl⟩
  enqueue cpu now q m task flags stocks := by
    refine ⟨RoundRobin.queue, List.mem_singleton_self _, r.slice, ?_⟩
    have asks : (Progress.dispatch ⟨q, [], none, m⟩ ⟨task.pid, RoundRobin.queue, r.slice⟩).Asks _ :=
      Progress.dispatch_asks ⟨rfl, rfl⟩ (stocks.has (List.mem_singleton_self _)) _ _
    simp only [RoundRobin.policy, Callback.run_sequence, Callback.run_place, run_stamp]
    exact ⟨asks.error, asks.placements⟩
  dispatch cpu now q m previous stocks known :=
    Progress.consume_asks ⟨rfl, rfl⟩ (stocks _ (List.mem_singleton_self _)) known
  running cpu now q m task _ := by
    simp only [RoundRobin.policy, Callback.run_sequence, run_lookUp]
    split <;> exact ⟨rfl, rfl⟩
  stopping _ _ _ _ _ _ _ := ⟨rfl, rfl⟩
  enable _ _ _ _ _ _ := ⟨rfl, rfl, rfl⟩

theorem IoPriority.run_recorded (p : IoPriority) (cpu : CpuId) (now : Nanos) (s : Progress Memory)
    (pid : Pid) (used : Nanos) :
    ((p.recorded pid used).run cpu now s).2.error = s.error ∧
      ((p.recorded pid used).run cpu now s).2.placements = s.placements := by
  unfold recorded
  split <;> exact ⟨rfl, rfl⟩

theorem IoPriority.conforms (p : IoPriority) : p.policy.Conforms [prioQueue, normalQueue] where
  shared := by simp [normalQueue, prioQueue, localQueue]
  init now q m only := by
    have freshPrio : q.shared.contains prioQueue ≠ true := fun present =>
      absurd (only _ present) (by decide)
    have freshNormal : (q.shared.insert prioQueue []).contains normalQueue ≠ true := by
      rw [Table.contains_insert]
      simp only [ne_eq, Bool.or_eq_true, decide_eq_true_eq, not_or]
      exact ⟨by decide, fun present => absurd (only _ present) (by decide)⟩
    have first := Fifo.run_createOr 1 (by decide) (by decide) (p := ⟨q, [], none, m⟩) freshPrio
      0 now (Fifo.createOr 0 (pure 0))
    have second := Fifo.run_createOr 0 (by decide) (by decide)
      (p := ⟨{ q with shared := q.shared.insert prioQueue [] }, [], none, m⟩) freshNormal 0 now (pure 0)
    simp only [IoPriority.policy, first, second]
    refine ⟨rfl, ⟨rfl, rfl⟩, ?_⟩
    intro queue member
    simp only [List.mem_cons, List.not_mem_nil, or_false] at member
    rcases member with rfl | rfl <;> simp [Table.contains_insert]
  selectCpu cpu now q m task previous flags _ sound known := by
    refine pick_conforms sound known (fun chosen => do
      stamp p.maps.enqueueTime task.pid
      Callback.place task.pid localQueue p.slice
      tally p.counters Counters.recordDirectDispatch
      return chosen) ?_
    intro r chosen
    exact ⟨p.slice, _, by simp [dispatch_local]; rfl⟩
  enqueue cpu now q m task flags stocks := by
    have placed : ∀ (m' : Memory) queue slice, queue ∈ [prioQueue, normalQueue] →
        (Progress.dispatch ⟨q, [], none, m'⟩ ⟨task.pid, queue, slice⟩).Asks
          [⟨task.pid, queue, slice⟩] :=
      fun _ _ slice member => Progress.dispatch_asks ⟨rfl, rfl⟩ (stocks.has member) _ slice
    simp only [IoPriority.policy]
    rw [Callback.run_sequence, Callback.run_update]
    by_cases bound : (p.isIoBound task.pid m).1 = true
    · have asks := placed (p.isIoBound task.pid m).2 prioQueue p.prioSlice (by simp)
      refine ⟨prioQueue, by simp, p.prioSlice, ?_⟩
      rw [if_pos bound]
      exact ⟨asks.error, asks.placements⟩
    · have asks := placed (p.isIoBound task.pid m).2 normalQueue p.slice (by simp)
      refine ⟨normalQueue, by simp, p.slice, ?_⟩
      rw [if_neg bound]
      exact ⟨asks.error, asks.placements⟩
  dispatch cpu now q m previous stocks known := by
    simp only [IoPriority.policy]
    rw [Callback.run_sequence, Callback.run_length]
    refine Progress.consume_asks ⟨rfl, rfl⟩ (stocks _ ?_) known
    split <;> simp
  running cpu now q m task _ := by
    simp only [IoPriority.policy, Callback.run_sequence, run_lookUp]
    split
    · exact ⟨rfl, rfl⟩
    · rw [Callback.run_sequence, Callback.run_here, Callback.run_sequence, Callback.run_update]
      split <;> exact ⟨rfl, rfl⟩
  stopping cpu now q m task runnable _ := by
    have quiet := p.run_recorded cpu now ⟨q, [], none, m⟩ task.pid (Usage.used p.slice task.slice)
    simp only [IoPriority.policy, Callback.run_sequence]
    exact ⟨quiet.1, quiet.2⟩
  enable _ _ _ _ _ _ := ⟨rfl, rfl, rfl⟩

/-! None of them places a task that it was not asked about. -/

section

variable {allowed : Pid → Prop}

theorem Callback.PlacesOnly.stamp (map : StoreId) (pid : Pid) : (stamp map pid).PlacesOnly allowed :=
  .of_same fun _ _ _ => rfl

theorem Callback.PlacesOnly.tally (counters : Nat) (amounts : List (Counter × UInt64)) :
    (tally counters amounts).PlacesOnly allowed :=
  .of_same fun _ _ _ => rfl

theorem Callback.PlacesOnly.pick {previous : CpuId} {direct : CpuId → Callback ω CpuId}
    (places : ∀ chosen, (direct chosen).PlacesOnly allowed) :
    (Callback.pickCpu previous >>= fun choice =>
      if choice.2 then direct choice.1 else pure choice.1).PlacesOnly allowed := by
  refine .sequence (.pickCpu previous) fun choice => ?_
  split
  · exact places choice.1
  · exact .done choice.1

theorem Fifo.focused : (Fifo.policy ω).Focused where
  selectCpu _ _ _ :=
    .pick fun chosen => .sequence (.place _ localQueue defaultSlice) fun _ => .done chosen
  enqueue _ _ := .place _ _ _
  dispatch _ _ := .sequence (.take _) fun _ => .done _
  running _ := .done _
  stopping _ _ := .done _
  enable _ _ _ _ _ := rfl

theorem RoundRobin.focused (r : RoundRobin) : r.policy.Focused where
  selectCpu _ _ _ :=
    .pick fun chosen => .sequence (.stamp _ _) fun _ =>
      .sequence (.place _ localQueue r.slice) fun _ => .sequence (.tally _ _) fun _ => .done chosen
  enqueue _ _ := .sequence (.place _ _ _) fun _ => .stamp _ _
  dispatch _ _ := .sequence (.take _) fun _ => .done _
  running _ := by
    refine .sequence (.update _) fun since => ?_
    cases since with
    | none => exact .done _
    | some since => exact .sequence .here fun _ => .tally _ _
  stopping _ _ := .tally _ _
  enable _ _ _ _ _ := rfl

theorem IoPriority.focused (p : IoPriority) : p.policy.Focused where
  selectCpu _ _ _ :=
    .pick fun chosen => .sequence (.stamp _ _) fun _ =>
      .sequence (.place _ localQueue p.slice) fun _ => .sequence (.tally _ _) fun _ => .done chosen
  enqueue _ _ := by
    refine .sequence (.update _) fun bound => ?_
    cases bound with
    | true => exact .sequence (.place _ _ _) fun _ => .stamp _ _
    | false => exact .sequence (.place _ _ _) fun _ => .stamp _ _
  dispatch _ _ := .sequence (.length _) fun _ => .sequence (.take _) fun _ => .done _
  running _ := by
    refine .sequence (.update _) fun since => ?_
    cases since with
    | none => exact .done _
    | some since =>
      refine .sequence .here fun _ => .sequence (.update _) fun bound => ?_
      cases bound with
      | true => exact .sequence (.tally _ _) fun _ => .tally _ _
      | false => exact .sequence (.tally _ _) fun _ => .tally _ _
  stopping task _ := by
    refine .sequence (.of_same fun cpu now s => ?_) fun value =>
      .sequence (.update _) fun _ => .tally _ _
    exact (p.run_recorded cpu now s task.pid _).2
  enable _ _ _ _ _ := rfl

end

/-- The policies that come with the host, with any settings, maps and counters. -/
inductive Policy.IsShipped : Policy Memory → Prop where
  | fifo : IsShipped (Fifo.policy Memory)
  | roundRobin (r : RoundRobin) : IsShipped r.policy
  | ioPriority (p : IoPriority) : IsShipped p.policy

theorem Policy.IsShipped.conforms {policy : Policy Memory} (shipped : policy.IsShipped) :
    ∃ own, policy.Conforms own := by
  cases shipped with
  | fifo => exact ⟨_, Fifo.conforms⟩
  | roundRobin r => exact ⟨_, r.conforms⟩
  | ioPriority p => exact ⟨_, p.conforms⟩

theorem Policy.IsShipped.focused {policy : Policy Memory} (shipped : policy.IsShipped) :
    policy.Focused := by
  cases shipped with
  | fifo => exact Fifo.focused
  | roundRobin r => exact r.focused
  | ioPriority p => exact p.focused

namespace SchedClass

def Operation.Ships : Operation Memory → Prop
  | .install policy => policy.IsShipped
  | _ => True

theorem Operation.Ships.conforms {op : Operation Memory} (ships : op.Ships) : op.Conforms := by
  cases op with
  | install policy => exact Policy.IsShipped.conforms ships
  | _ => trivial

/-- The policies that come with the host are never removed by the class: whatever happened so far, an
installation succeeds if there is no policy, only its removal takes a policy away, and no operation on
a registered task or on a processor that exists fails. -/
theorem shipped_policies_stay (cpus : Nat) (memory : Memory) (ops : List (Operation Memory))
    (ships : ∀ op ∈ ops, op.Ships) :
    let c := (new cpus memory).steps ops
    c.exit = none ∧
    (∀ policy : Policy Memory, policy.IsShipped → c.policy = none →
      (c.install policy).1 = .ok () ∧ (c.install policy).2.policy = some policy) ∧
    (∀ policy (op : Operation Memory), c.policy = some policy → op.Ships → op ≠ .uninstall →
      (c.step op).policy = some policy) ∧
    (∀ pid, c.tasks.contains pid = true → (∀ flags, (c.wake pid flags).1 = .ok ()) ∧
      (∀ flags, (c.enqueue pid flags).1 = .ok ()) ∧ (c.removeTask pid).1 = .ok ()) ∧
    ∀ cpu, cpu < c.cpus → (∃ next, (c.pickNext cpu).1 = .ok next) ∧
      ∀ ran runnable, ∃ stopped, (c.stop cpu ran runnable).1 = .ok stopped := by
  obtain ⟨agrees, backed, _⟩ := new_agrees cpus memory
  have healthy := steps_stand agrees backed (new_healthy cpus memory) fun op member =>
    (ships op member).conforms
  obtain ⟨agrees, backed⟩ := steps_agree agrees backed ops
  refine ⟨healthy.exit, ?_, ?_, ?_, ?_⟩
  · intro policy shipped free
    obtain ⟨own, conforms⟩ := shipped.conforms
    obtain ⟨result, _, active⟩ := install_stands agrees healthy free conforms
    exact ⟨result, active⟩
  · intro policy op active ships other
    exact (step_stands agrees backed healthy ships.conforms).2 policy active other
  · intro pid registered
    exact ⟨fun flags => (wake_stands agrees healthy pid flags).2 registered,
      fun flags => (enqueue_stands agrees healthy pid flags).2 registered,
      (removeTask_stands agrees healthy backed pid).2 registered⟩
  · intro cpu known
    exact ⟨(pickNext_stands agrees healthy backed cpu).2 known,
      fun ran runnable => (stop_stands agrees healthy backed cpu ran runnable).2 known⟩

theorem fifo_stays_over_a_run :
    let c := (new 2 Memory.empty).steps
      [.install (Fifo.policy Memory), .addTask { pid := 1 }, .wake 1 0, .pickNext 0]
    c.exit = none ∧ c.policyName = some "fifo" ∧ c.current? 0 = some 1 ∧
      ∃ stopped, (c.stop 0 5 true).1 = .ok stopped := by
  have stays := shipped_policies_stay 2 Memory.empty
    [.install (Fifo.policy Memory), .addTask { pid := 1 }, .wake 1 0, .pickNext 0]
    (by
      intro op member
      simp only [List.mem_cons, List.not_mem_nil, or_false] at member
      rcases member with rfl | rfl | rfl | rfl
      · exact Policy.IsShipped.fifo
      all_goals trivial)
  exact ⟨stays.1, rfl, rfl, (stays.2.2.2.2 0 (by decide)).2 5 true⟩

end SchedClass

end LoadableSched
