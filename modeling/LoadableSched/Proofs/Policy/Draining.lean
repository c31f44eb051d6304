import LoadableSched.Proofs.Class.Growing

/-!
The queues that a policy serves, in the order in which it serves them: a processor without tasks is given
the head of the first of them that is not empty.
-/

namespace LoadableSched

variable {ω α β : Type}

namespace Queues

variable {q r : Queues}

def foremost (q : Queues) : List QueueId → Option (QueueId × Pid)
  | [] => none
  | queue :: rest => ((q.line queue).head?.map (queue, ·)).or (q.foremost rest)

theorem foremost_eq_none_iff {order : List QueueId} :
    q.foremost order = none ↔ ∀ queue ∈ order, q.line queue = [] := by
  induction order with
  | nil => simp [foremost]
  | cons queue rest ih => simp [foremost, ih]

theorem consume_flows {queue : QueueId} {cpu : CpuId} (present : q.shared.contains queue = true)
    (known : cpu < q.cpus) (memory : ω) :
    q.Flows cpu ((q.line queue).head?.map (queue, ·)).toList
      (Progress.consume ⟨q, [], none, memory⟩ queue cpu).2.queues := by
  obtain ⟨moved, r, done⟩ := moveToLocal_ok present known
  have flows := moveToLocal_flows done
  rw [headIf_of_moved done] at flows
  simp only [Progress.consume, done]
  cases head : (q.line queue).head? <;> rw [head] at flows <;> exact flows

end Queues

namespace Callback

structure CreatesNone (c : Callback ω α) : Prop where
  numbers : ∀ cpu now (p : Progress ω), p.queues.SameNumbers (c.run cpu now p).2.queues

namespace CreatesNone

theorem sequence {c : Callback ω α} {f : α → Callback ω β} (first : c.CreatesNone)
    (later : ∀ value, (f value).CreatesNone) : (c >>= f).CreatesNone where
  numbers cpu now p := by
    rw [run_sequence]
    exact (first.numbers cpu now p).trans ((later _).numbers cpu now _)

theorem of_shared {c : Callback ω α}
    (same : ∀ cpu now p, (c.run cpu now p).2.queues.shared = p.queues.shared) : c.CreatesNone where
  numbers cpu now p queue := by rw [same]

theorem done (value : α) : (pure value : Callback ω α).CreatesNone := of_shared fun _ _ _ => rfl

theorem map {c : Callback ω α} (none : c.CreatesNone) (f : α → β) : (f <$> c).CreatesNone where
  numbers cpu now p := by
    rw [run_map]
    exact none.numbers cpu now p

theorem pickCpu (previous : CpuId) : (pickCpu previous : Callback ω _).CreatesNone :=
  of_shared fun _ _ p => p.queues.selectCpu_shared previous

theorem length (queue : QueueId) : (length queue : Callback ω _).CreatesNone :=
  of_shared fun _ _ _ => rfl

theorem here : (here : Callback ω _).CreatesNone := of_shared fun _ _ _ => rfl

theorem update (f : ω → α × ω) : (update f).CreatesNone := of_shared fun _ _ _ => rfl

theorem place (pid : Pid) (queue : QueueId) (slice : Nanos) :
    (place pid queue slice : Callback ω _).CreatesNone := by
  refine of_shared fun _ _ p => ?_
  rw [run_place, p.dispatch_queues]

theorem take (queue : QueueId) : (take queue : Callback ω _).CreatesNone where
  numbers cpu _ p := by
    rw [run_take, Progress.consume]
    split
    · rename_i moved
      exact Queues.moveToLocal_sameNumbers moved
    · exact .refl _

theorem pick {previous : CpuId} {direct : CpuId → Callback ω CpuId}
    (places : ∀ chosen, (direct chosen).CreatesNone) :
    (Callback.pickCpu previous >>= fun choice =>
      if choice.2 then direct choice.1 else pure choice.1).CreatesNone := by
  refine .sequence (.pickCpu previous) fun choice => ?_
  split
  · exact places choice.1
  · exact .done choice.1

end CreatesNone

end Callback

/-- A policy that keeps the rules of the class and has no queues but these, which it serves in this order. -/
structure Policy.Drains (policy : Policy ω) (order : List QueueId) : Prop where
  conforms : policy.Conforms order
  own : ∀ queue ∈ order, isBuiltin queue = false
  init : ∀ now q m, q.OnlyBuiltin → ∀ queue, isBuiltin queue = false →
    (policy.init.run 0 now ⟨q, [], none, m⟩).2.queues.shared.contains queue = true → queue ∈ order
  creates : ∀ matter, matter ≠ .init → (policy.answer matter).CreatesNone
  dispatch : ∀ cpu now (q : Queues) m previous, q.Stocks order → cpu < q.cpus →
    q.Flows cpu (q.foremost order).toList
      ((policy.dispatch cpu previous).run cpu now ⟨q, [], none, m⟩).2.queues
  running : ∀ cpu now q m task, ((policy.running task).run cpu now ⟨q, [], none, m⟩).2.queues = q

theorem creates_of_callbacks {policy : Policy ω}
    (selectCpu : ∀ task previous flags, (policy.selectCpu task previous flags).CreatesNone)
    (enqueue : ∀ task flags, (policy.enqueue task flags).CreatesNone)
    (dispatch : ∀ cpu previous, (policy.dispatch cpu previous).CreatesNone)
    (running : ∀ task, (policy.running task).CreatesNone)
    (stopping : ∀ task runnable, (policy.stopping task runnable).CreatesNone)
    (enable : ∀ task, (policy.enable task).CreatesNone) {matter : Matter} (later : matter ≠ .init) :
    (policy.answer matter).CreatesNone := by
  cases matter with
  | init => exact absurd rfl later
  | selectCpu task flags => exact (selectCpu task task.lastCpu flags).map _
  | enqueue pid task cpu flags => exact (enqueue task flags).map _
  | dispatch cpu previous => exact (dispatch cpu previous).map _
  | running cpu task => exact (running task).map _
  | stopping cpu task runnable => exact (stopping task runnable).map _
  | enable pid task => exact (enable task).map _

theorem Queues.OnlyBuiltin.insert {q : Queues} (only : q.OnlyBuiltin) {first queue : QueueId}
    (own : isBuiltin queue = false) (present : (q.shared.insert first []).contains queue = true) :
    queue = first := by
  rw [Table.contains_insert, Bool.or_eq_true, decide_eq_true_eq] at present
  rcases present with same | before
  · exact same
  · rw [only queue before] at own
    cases own

theorem Fifo.createOr_only {q : Queues} (only : q.OnlyBuiltin) {now : Nanos} {m : ω} {queue : QueueId}
    (own : isBuiltin queue = false)
    (present : ((createOr 0 (pure 0)).run 0 now ⟨q, [], none, m⟩).2.queues.shared.contains queue = true) :
    queue ∈ [Fifo.queue] := by
  have fresh : q.shared.contains Fifo.queue ≠ true := fun there => absurd (only _ there) (by decide)
  rw [run_createOr 0 (by decide) (by decide) fresh] at present
  exact List.mem_singleton.mpr (only.insert own present)

theorem Fifo.drains : (Fifo.policy ω).Drains [Fifo.queue] where
  conforms := Fifo.conforms
  own queue member := by
    cases List.mem_singleton.mp member
    rfl
  init _ _ _ only _ own present := Fifo.createOr_only only own present
  creates _ := creates_of_callbacks
    (fun _ _ _ => .pick fun chosen => .sequence (.place _ localQueue defaultSlice) fun _ => .done chosen)
    (fun _ _ => .place _ _ _) (fun _ _ => .sequence (.take _) fun _ => .done _)
    (fun _ => .done _) (fun _ _ => .done _) fun _ => .done _
  dispatch cpu now q m previous stocks known := by
    simp only [Queues.foremost, Option.or_none]
    exact Queues.consume_flows (stocks _ (List.mem_singleton_self _)) known m
  running _ _ _ _ _ := rfl

theorem Callback.CreatesNone.stamp (map : StoreId) (pid : Pid) : (stamp map pid).CreatesNone :=
  .of_shared fun _ _ _ => rfl

theorem Callback.CreatesNone.tally (counters : Nat) (amounts : List (Counter × UInt64)) :
    (tally counters amounts).CreatesNone :=
  .of_shared fun _ _ _ => rfl

theorem RoundRobin.drains (r : RoundRobin) : r.policy.Drains [RoundRobin.queue] where
  conforms := r.conforms
  own queue member := by
    cases List.mem_singleton.mp member
    rfl
  init _ _ _ only _ own present := Fifo.createOr_only only own present
  creates _ := by
    refine creates_of_callbacks (fun task previous flags => ?_) (fun task flags => ?_) (fun _ _ => ?_)
      (fun task => ?_) (fun _ _ => .tally _ _) fun _ => .done _
    · exact .pick fun chosen => .sequence (.stamp _ _) fun _ =>
        .sequence (.place _ localQueue r.slice) fun _ => .sequence (.tally _ _) fun _ => .done chosen
    · exact .sequence (.place _ _ _) fun _ => .stamp _ _
    · exact .sequence (.take _) fun _ => .done _
    · refine .sequence (.update _) fun since => ?_
      cases since with
      | none => exact .done _
      | some since => exact .sequence .here fun _ => .tally _ _
  dispatch cpu now q m previous stocks known := by
    simp only [Queues.foremost, Option.or_none]
    exact Queues.consume_flows (stocks _ (List.mem_singleton_self _)) known m
  running cpu now q m task := by
    simp only [RoundRobin.policy, Callback.run_sequence, run_lookUp]
    split <;> rfl

namespace IoPriority

theorem init_creates (p : IoPriority) {q : Queues} (only : q.OnlyBuiltin) {now : Nanos} {m : Memory}
    {queue : QueueId} (own : isBuiltin queue = false)
    (present : (p.policy.init.run 0 now ⟨q, [], none, m⟩).2.queues.shared.contains queue = true) :
    queue ∈ [prioQueue, normalQueue] := by
  have freshPrio : q.shared.contains prioQueue ≠ true := fun there =>
    absurd (only _ there) (by decide)
  have freshNormal : (q.shared.insert prioQueue []).contains normalQueue ≠ true := fun there =>
    absurd (only.insert (by decide) there) (by decide)
  have first := Fifo.run_createOr 1 (by decide) (by decide) (p := ⟨q, [], none, m⟩) freshPrio
    0 now (Fifo.createOr 0 (pure 0))
  have second := Fifo.run_createOr 0 (by decide) (by decide)
    (p := ⟨{ q with shared := q.shared.insert prioQueue [] }, [], none, m⟩) freshNormal 0 now (pure 0)
  simp only [IoPriority.policy, first, second, Callback.run_pure] at present
  rw [Table.contains_insert, Bool.or_eq_true, decide_eq_true_eq] at present
  rw [List.mem_cons, List.mem_singleton]
  exact present.symm.imp (only.insert own) id

theorem creates_none (p : IoPriority) {matter : Matter} (later : matter ≠ .init) :
    (p.policy.answer matter).CreatesNone := by
  refine creates_of_callbacks (fun task previous flags => ?_) (fun task flags => ?_) (fun _ _ => ?_)
    (fun task => ?_) (fun task _ => ?_) (fun _ => .done _) later
  · exact .pick fun chosen => .sequence (.stamp _ _) fun _ =>
      .sequence (.place _ localQueue p.slice) fun _ => .sequence (.tally _ _) fun _ => .done chosen
  · refine .sequence (.update _) fun bound => ?_
    cases bound with
    | true => exact .sequence (.place _ _ _) fun _ => .stamp _ _
    | false => exact .sequence (.place _ _ _) fun _ => .stamp _ _
  · exact .sequence (.length _) fun _ => .sequence (.take _) fun _ => .done _
  · refine .sequence (.update _) fun since => ?_
    cases since with
    | none => exact .done _
    | some since =>
      refine .sequence .here fun _ => .sequence (.update _) fun bound => ?_
      cases bound with
      | true => exact .sequence (.tally _ _) fun _ => .tally _ _
      | false => exact .sequence (.tally _ _) fun _ => .tally _ _
  · refine .sequence ?_ fun value => .sequence (.update _) fun _ => .tally _ _
    unfold IoPriority.recorded
    cases p.model with
    | lastSample => exact .done _
    | average weight initial => exact .sequence (.update _) fun _ => .done _

theorem drains (p : IoPriority) : p.policy.Drains [prioQueue, normalQueue] where
  conforms := p.conforms
  own queue member := by
    rcases List.mem_pair.mp member with rfl | rfl <;> rfl
  init _ _ _ only _ own present := p.init_creates only own present
  creates _ later := p.creates_none later
  dispatch cpu now q m previous stocks known := by
    have ahead : (Progress.queued ⟨q, [], none, m⟩ prioQueue cpu) = (q.line prioQueue).length := by
      simp only [Progress.queued, if_neg (show prioQueue ≠ localQueue by decide), Queues.length?, Queues.line]
      cases q.shared.get? prioQueue <;> rfl
    simp only [IoPriority.policy, Callback.run_sequence, Callback.run_length, ahead]
    have stocked : ∀ queue, (queue = prioQueue ∨ queue = normalQueue) →
        q.shared.contains queue = true := fun queue either => stocks queue (by simpa using either)
    cases standing : q.line prioQueue with
    | nil =>
      have flows := Queues.consume_flows (stocked normalQueue (.inr rfl)) known m
      simpa [Queues.foremost, standing] using flows
    | cons pid rest =>
      have flows := Queues.consume_flows (stocked prioQueue (.inl rfl)) known m
      simpa [Queues.foremost, standing] using flows
  running cpu now q m task := by
    simp only [IoPriority.policy, Callback.run_sequence, run_lookUp]
    split
    · rfl
    · rw [Callback.run_sequence, Callback.run_here, Callback.run_sequence, Callback.run_update]
      split <;> rfl

end IoPriority

theorem Policy.IsShipped.drains {policy : Policy Memory} (shipped : policy.IsShipped) :
    ∃ order, policy.Drains order := by
  cases shipped with
  | fifo => exact ⟨_, Fifo.drains⟩
  | roundRobin r => exact ⟨_, r.drains⟩
  | ioPriority p => exact ⟨_, p.drains⟩

end LoadableSched
