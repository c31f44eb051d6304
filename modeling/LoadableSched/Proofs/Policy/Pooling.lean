import LoadableSched.Proofs.Class.Applying
import LoadableSched.Proofs.Class.Ledger
import LoadableSched.Proofs.Policy.Shipped

/-!
The policies with one queue for all processors: what each of their callbacks takes from queues and puts on
them.
-/

namespace LoadableSched

variable {ω α β : Type}

namespace Callback

variable (cpu : CpuId) (now : Nanos) (p : Progress ω)

theorem moves_bind (c : Callback ω α) (f : α → Callback ω β) :
    (c.bind f).moves cpu now p =
      c.moves cpu now p ++ (f (c.run cpu now p).1).moves cpu now (c.run cpu now p).2 := by
  induction c generalizing p with
  | done value => rfl
  | createQueue id next ih => exact ih _ _
  | selectCpu previous next ih => exact ih _ _
  | dispatch pid queue slice next ih => exact ih _
  | consume queue next ih => exact (congrArg (_ ++ ·) (ih _ _)).trans (List.append_assoc ..).symm
  | queued queue next ih => exact ih _ _
  | moment next ih => exact ih _ _
  | fail message next ih => exact ih _
  | readMemory next ih => exact ih _ _
  | writeMemory memory next ih => exact ih _

theorem requests_bind (c : Callback ω α) (f : α → Callback ω β) :
    (c.bind f).requests cpu now p =
      c.requests cpu now p ++ (f (c.run cpu now p).1).requests cpu now (c.run cpu now p).2 := by
  induction c generalizing p with
  | done value => rfl
  | createQueue id next ih => exact ih _ _
  | selectCpu previous next ih => exact ih _ _
  | dispatch pid queue slice next ih => exact congrArg (_ :: ·) (ih _)
  | consume queue next ih => exact congrArg (_ :: ·) (ih _ _)
  | queued queue next ih => exact ih _ _
  | moment next ih => exact ih _ _
  | fail message next ih => exact congrArg (_ :: ·) (ih _)
  | readMemory next ih => exact ih _ _
  | writeMemory memory next ih => exact ih _

@[simp] theorem moves_sequence (c : Callback ω α) (f : α → Callback ω β) :
    (c >>= f).moves cpu now p =
      c.moves cpu now p ++ (f (c.run cpu now p).1).moves cpu now (c.run cpu now p).2 :=
  moves_bind cpu now p c f

@[simp] theorem requests_sequence (c : Callback ω α) (f : α → Callback ω β) :
    (c >>= f).requests cpu now p =
      c.requests cpu now p ++ (f (c.run cpu now p).1).requests cpu now (c.run cpu now p).2 :=
  requests_bind cpu now p c f

@[simp] theorem moves_map (f : α → β) (c : Callback ω α) :
    (f <$> c).moves cpu now p = c.moves cpu now p :=
  (moves_bind cpu now p c _).trans (List.append_nil _)

@[simp] theorem requests_map (f : α → β) (c : Callback ω α) :
    (f <$> c).requests cpu now p = c.requests cpu now p :=
  (requests_bind cpu now p c _).trans (List.append_nil _)

end Callback

/-- What the callbacks of a policy do with the queues if all processors are served from one queue. -/
structure Policy.Pools (policy : Policy ω) (queue : QueueId) : Prop where
  shared : queue ≠ localQueue
  selectCpu : ∀ cpu now p task previous flags,
    (policy.selectCpu task previous flags).moves cpu now p = [] ∧
      ∀ x ∈ (policy.selectCpu task previous flags).requests cpu now p,
        ∃ slice, x.2 = .place ⟨task.pid, localQueue, slice⟩
  enqueue : ∀ cpu now p task flags, (policy.enqueue task flags).moves cpu now p = [] ∧
    ∃ slice, ((policy.enqueue task flags).requests cpu now p).map (·.2) =
      [.place ⟨task.pid, queue, slice⟩]
  dispatch : ∀ cpu now p previous,
    (policy.dispatch cpu previous).moves cpu now p = p.queues.headIf queue (p.consume queue cpu).1 ∧
      (policy.dispatch cpu previous).requests cpu now p = [(p.queues, .take queue)]
  running : ∀ cpu now p task, (policy.running task).moves cpu now p = [] ∧
    (policy.running task).requests cpu now p = []
  stopping : ∀ cpu now p task runnable, (policy.stopping task runnable).moves cpu now p = [] ∧
    (policy.stopping task runnable).requests cpu now p = []
  enable : ∀ cpu now p task, (policy.enable task).moves cpu now p = [] ∧
    (policy.enable task).requests cpu now p = []

theorem pick_pools {previous : CpuId} {pid : Pid} (direct : CpuId → Callback ω CpuId)
    (places : ∀ cpu now p chosen, (direct chosen).moves cpu now p = [] ∧
      ∃ slice, ((direct chosen).requests cpu now p).map (·.2) = [.place ⟨pid, localQueue, slice⟩])
    (cpu : CpuId) (now : Nanos) (p : Progress ω) :
    (Callback.pickCpu previous >>= fun choice =>
        if choice.2 then direct choice.1 else pure choice.1).moves cpu now p = [] ∧
      ∀ x ∈ (Callback.pickCpu previous >>= fun choice =>
          if choice.2 then direct choice.1 else pure choice.1).requests cpu now p,
        ∃ slice, x.2 = .place ⟨pid, localQueue, slice⟩ := by
  rw [Callback.moves_sequence, Callback.requests_sequence, Callback.run_pickCpu]
  by_cases idle : (p.queues.selectCpu previous).1.2 = true
  · rw [if_pos idle]
    obtain ⟨moves, slice, requests⟩ := places cpu now
      { p with queues := (p.queues.selectCpu previous).2 } (p.queues.selectCpu previous).1.1
    refine ⟨moves, fun x member => ⟨slice, ?_⟩⟩
    exact List.mem_singleton.mp (requests ▸ List.mem_map_of_mem member)
  · rw [if_neg idle]
    exact ⟨rfl, fun x member => absurd member List.not_mem_nil⟩

theorem Fifo.pools : (Fifo.policy ω).Pools Fifo.queue where
  shared := by decide
  selectCpu cpu now p task previous flags := by
    refine pick_pools (fun chosen => do
      Callback.place task.pid localQueue defaultSlice
      return chosen) ?_ cpu now p
    exact fun _ _ _ _ => ⟨rfl, _, rfl⟩
  enqueue _ _ _ _ _ := ⟨rfl, _, rfl⟩
  dispatch _ _ _ _ := ⟨List.append_nil _, rfl⟩
  running _ _ _ _ := ⟨rfl, rfl⟩
  stopping _ _ _ _ _ := ⟨rfl, rfl⟩
  enable _ _ _ _ := ⟨rfl, rfl⟩

theorem RoundRobin.pools (r : RoundRobin) : r.policy.Pools RoundRobin.queue where
  shared := by decide
  selectCpu cpu now p task previous flags := by
    refine pick_pools (fun chosen => do
      stamp r.enqueueTime task.pid
      Callback.place task.pid localQueue r.slice
      tally r.counters Counters.recordDirectDispatch
      return chosen) ?_ cpu now p
    exact fun _ _ _ _ => ⟨rfl, _, rfl⟩
  enqueue _ _ _ _ _ := ⟨rfl, _, rfl⟩
  dispatch _ _ _ _ := ⟨List.append_nil _, rfl⟩
  running cpu now p task := by
    simp only [RoundRobin.policy, Callback.moves_sequence, Callback.requests_sequence]
    split <;> exact ⟨rfl, rfl⟩
  stopping _ _ _ _ _ := ⟨rfl, rfl⟩
  enable _ _ _ _ := ⟨rfl, rfl⟩

end LoadableSched
