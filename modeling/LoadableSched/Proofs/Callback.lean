import LoadableSched.Class.Callback
import LoadableSched.Proofs.Queues

/-!
What a callback can do before its placements are made, whatever the policy: it moves tasks between
queues and creates queues, but puts no task on a queue and takes none off.
-/

namespace LoadableSched

variable {ω α : Type}

namespace Progress

theorem dispatch_queues (p : Progress ω) (placement : Placement) :
    (p.dispatch placement).queues = p.queues := by
  unfold dispatch
  split <;> rfl

theorem consume_shifts {p : Progress ω} (sound : p.queues.WellFormed) (queue : QueueId)
    (cpu : CpuId) : p.queues.Shifts (p.consume queue cpu).2.queues [] [] := by
  unfold consume
  split
  · rename_i moved
    exact Queues.moveToLocal_shifts sound moved
  · exact Queues.Shifts.refl sound

theorem consume_covers (p : Progress ω) (queue : QueueId) (cpu : CpuId) :
    p.queues.Covers (p.consume queue cpu).2.queues := by
  unfold consume
  split
  · rename_i moved
    exact (Queues.moveToLocal_sameNumbers moved).covers
  · exact fun _ present => present

end Progress

theorem Callback.run_shifts (cpu : CpuId) (now : Nanos) (c : Callback ω α) {p : Progress ω}
    (sound : p.queues.WellFormed) :
    p.queues.Shifts (c.run cpu now p).2.queues [] [] := by
  induction c generalizing p with
  | done value => exact Queues.Shifts.refl sound
  | createQueue id next ih =>
    have made := Queues.create_shifts sound id
    exact made.trans_still (ih _ (p := { p with queues := _ }) made.wellFormed)
  | selectCpu previous next ih =>
    have made := Queues.selectCpu_shifts sound previous
    exact made.trans_still (ih _ (p := { p with queues := _ }) made.wellFormed)
  | dispatch pid queue slice next ih =>
    have same := p.dispatch_queues ⟨pid, queue, slice⟩
    have later := ih (p := p.dispatch ⟨pid, queue, slice⟩) (same ▸ sound)
    exact same ▸ later
  | consume queue next ih =>
    have made := Progress.consume_shifts sound queue cpu
    exact made.trans_still (ih _ made.wellFormed)
  | queued queue next ih => exact ih _ sound
  | moment next ih => exact ih _ sound
  | fail message next ih => exact ih (p := p.record (.policy message)) sound
  | readMemory next ih => exact ih _ sound
  | writeMemory memory next ih => exact ih (p := { p with memory }) sound

theorem Callback.run_covers (cpu : CpuId) (now : Nanos) (c : Callback ω α) (p : Progress ω) :
    p.queues.Covers (c.run cpu now p).2.queues := by
  induction c generalizing p with
  | done value => exact fun _ present => present
  | createQueue id next ih =>
    exact fun queue present => ih _ _ queue (Queues.create_covers id queue present)
  | selectCpu previous next ih =>
    intro queue present
    exact ih _ _ queue ((congrArg (·.contains queue) (Queues.selectCpu_shared previous)).trans present)
  | dispatch pid queue slice next ih =>
    have same := p.dispatch_queues ⟨pid, queue, slice⟩
    exact fun other present => ih _ other (same ▸ present)
  | consume queue next ih =>
    exact fun other present => ih _ _ other (p.consume_covers queue cpu other present)
  | queued queue next ih => exact ih _ _
  | moment next ih => exact ih _ _
  | fail message next ih => exact ih (p.record (.policy message))
  | readMemory next ih => exact ih _ _
  | writeMemory memory next ih => exact ih { p with memory }

/-! What the calls do when they are run in sequence. -/

namespace Callback

variable {β : Type} (cpu : CpuId) (now : Nanos) (p : Progress ω)

@[simp] theorem run_sequence (c : Callback ω α) (f : α → Callback ω β) :
    (c >>= f).run cpu now p = (f (c.run cpu now p).1).run cpu now (c.run cpu now p).2 :=
  run_bind cpu now c f p

@[simp] theorem run_pure (value : α) : (pure value : Callback ω α).run cpu now p = (value, p) := rfl

@[simp] theorem run_create (id : Int64) :
    (create id).run cpu now p = ((p.queues.create id).1, { p with queues := (p.queues.create id).2 }) :=
  rfl

@[simp] theorem run_pickCpu (previous : CpuId) :
    (pickCpu previous).run cpu now p =
      ((p.queues.selectCpu previous).1, { p with queues := (p.queues.selectCpu previous).2 }) := rfl

@[simp] theorem run_place (pid : Pid) (queue : QueueId) (slice : Nanos) :
    (place pid queue slice).run cpu now p = ((), p.dispatch ⟨pid, queue, slice⟩) := rfl

@[simp] theorem run_take (queue : QueueId) : (take queue).run cpu now p = p.consume queue cpu := rfl

@[simp] theorem run_length (queue : QueueId) :
    (length queue).run cpu now p = (p.queued queue cpu, p) := rfl

@[simp] theorem run_here : (here).run cpu now p = (⟨cpu, p.queues.cpus, now⟩, p) := rfl

@[simp] theorem run_update (f : ω → α × ω) :
    (update f).run cpu now p = ((f p.memory).1, { p with memory := (f p.memory).2 }) := rfl

end Callback

/-! Which tasks a callback asks to be placed. -/

theorem Progress.consume_placements (p : Progress ω) (queue : QueueId) (cpu : CpuId) :
    (p.consume queue cpu).2.placements = p.placements := by
  unfold consume
  split <;> rfl

namespace Callback

variable {β : Type} {allowed : Pid → Prop}

/-- All tasks that the callback asks to be placed are allowed, whatever answers it gets. -/
def PlacesOnly (allowed : Pid → Prop) (c : Callback ω α) : Prop :=
  ∀ cpu now (p : Progress ω), ∀ x ∈ (c.run cpu now p).2.placements, x ∈ p.placements ∨ allowed x.pid

namespace PlacesOnly

theorem sequence {c : Callback ω α} {f : α → Callback ω β} (first : c.PlacesOnly allowed)
    (later : ∀ value, (f value).PlacesOnly allowed) : (c >>= f).PlacesOnly allowed := by
  intro cpu now p x member
  rw [run_sequence] at member
  rcases later _ cpu now _ x member with early | now
  · exact first cpu now p x early
  · exact .inr now

theorem of_same {c : Callback ω α} (same : ∀ cpu now p, (c.run cpu now p).2.placements = p.placements) :
    c.PlacesOnly allowed :=
  fun cpu now p _ member => .inl (same cpu now p ▸ member)

theorem done (value : α) : (pure value : Callback ω α).PlacesOnly allowed := of_same fun _ _ _ => rfl

theorem pickCpu (previous : CpuId) : (pickCpu previous : Callback ω _).PlacesOnly allowed :=
  of_same fun _ _ _ => rfl

theorem take (queue : QueueId) : (take queue : Callback ω _).PlacesOnly allowed :=
  of_same fun cpu _ p => p.consume_placements queue cpu

theorem length (queue : QueueId) : (length queue : Callback ω _).PlacesOnly allowed :=
  of_same fun _ _ _ => rfl

theorem here : (here : Callback ω _).PlacesOnly allowed := of_same fun _ _ _ => rfl

theorem update (f : ω → α × ω) : (update f).PlacesOnly allowed := of_same fun _ _ _ => rfl

theorem place (pid : Pid) (queue : QueueId) (slice : Nanos) :
    (place pid queue slice : Callback ω _).PlacesOnly (· = pid) := by
  intro cpu now p x member
  rw [run_place, Progress.dispatch] at member
  split at member
  · rcases List.mem_append.mp member with early | last
    · exact .inl early
    · rw [List.mem_singleton.mp last]
      exact .inr rfl
  · exact .inl member

theorem nothing {c : Callback ω α} (none : c.PlacesOnly fun _ => False) (cpu : CpuId) (now : Nanos)
    (q : Queues) (m : ω) : (c.run cpu now ⟨q, [], .none, m⟩).2.placements = [] :=
  List.eq_nil_iff_forall_not_mem.mpr fun x member =>
    (none cpu now ⟨q, [], .none, m⟩ x member).elim List.not_mem_nil id

end PlacesOnly

end Callback

end LoadableSched
