import LoadableSched.Class.State
import LoadableSched.Proofs.Callback

/-!
The queues agree with the states of the tasks while a policy works: through callbacks, through the
placements they ask for, and through the removal of the policy. A task that is about to be placed may
be loose meanwhile, which is waiting on no queue.
-/

namespace LoadableSched.SchedClass

variable {ω α : Type} {c d e : SchedClass ω} {loose : List Pid}

/-- The queues hold waiting tasks only, each once, and all of them but for some loose ones. -/
structure Agrees (c : SchedClass ω) (loose : List Pid) : Prop where
  queues : c.queues.WellFormed
  tasks : c.tasks.Ordered
  distinct : c.queues.waiting.Nodup
  queued : ∀ pid ∈ c.queues.waiting, c.state? pid = some .queued
  waits : ∀ pid, c.state? pid = some .queued → pid ∈ c.queues.waiting ∨ pid ∈ loose

def SlotFollows (c d : SchedClass ω) (pid : Pid) : Prop :=
  ∃ slot slice, c.tasks.get? pid = some slot ∧
    d.tasks.get? pid = some ⟨{ slot.task with slice }, .queued⟩

/-- From `c` to `d` tasks may start to wait; nothing else happens to them or to the processors. -/
structure Follows (c d : SchedClass ω) : Prop where
  current : d.current = c.current
  previous : d.previous = c.previous
  cpus : d.cpus = c.cpus
  slot : ∀ pid, d.tasks.get? pid = c.tasks.get? pid ∨ SlotFollows c d pid

theorem SlotFollows.trans {pid : Pid} (first : SlotFollows c d pid) (later : SlotFollows d e pid) :
    SlotFollows c e pid := by
  obtain ⟨slot, slice, before, between⟩ := first
  obtain ⟨other, slice', same, after⟩ := later
  cases Option.some.inj (between.symm.trans same)
  exact ⟨slot, slice', before, after⟩

namespace Follows

theorem refl (c : SchedClass ω) : c.Follows c := ⟨rfl, rfl, rfl, fun _ => .inl rfl⟩

theorem trans (first : c.Follows d) (later : d.Follows e) : c.Follows e where
  current := later.current.trans first.current
  previous := later.previous.trans first.previous
  cpus := later.cpus.trans first.cpus
  slot pid := by
    rcases later.slot pid with same | moved
    · rcases first.slot pid with before | moved
      · exact .inl (same.trans before)
      · right
        obtain ⟨slot, slice, before, after⟩ := moved
        exact ⟨slot, slice, before, same.trans after⟩
    · right
      rcases first.slot pid with same | before
      · obtain ⟨slot, slice, between, after⟩ := moved
        exact ⟨slot, slice, same.symm.trans between, after⟩
      · exact before.trans moved

theorem current? (h : c.Follows d) (cpu : CpuId) : d.current? cpu = c.current? cpu := by
  simp only [SchedClass.current?, h.current]

theorem task (h : c.Follows d) {pid : Pid} {slot : Slot} (found : d.tasks.get? pid = some slot) :
    ∃ before slice, c.tasks.get? pid = some before ∧ slot.task = { before.task with slice } := by
  rcases h.slot pid with same | ⟨before, slice, found', after⟩
  · exact ⟨slot, slot.task.slice, same ▸ found, rfl⟩
  · cases Option.some.inj (found.symm.trans after)
    exact ⟨before, slice, found', rfl⟩

theorem contains (h : c.Follows d) (pid : Pid) : d.tasks.contains pid = c.tasks.contains pid := by
  simp only [Table.contains_eq]
  rcases h.slot pid with same | ⟨slot, slice, before, after⟩
  · rw [same]
  · rw [before, after]
    rfl

end Follows

/-- From `c` to `d` callbacks ran and some of their placements were made. -/
structure Places (c d : SchedClass ω) : Prop extends Follows c d where
  policy : d.policy = c.policy
  exit : d.exit = c.exit
  clock : d.clock = c.clock
  queues : d.queues.WellFormed
  tasks : d.tasks.Ordered
  distinct : d.queues.waiting.Nodup
  placed : ∀ pid,
    (d.tasks.get? pid = c.tasks.get? pid ∧ (pid ∈ d.queues.waiting ↔ pid ∈ c.queues.waiting)) ∨
    (pid ∉ c.queues.waiting ∧ pid ∈ d.queues.waiting ∧ SlotFollows c d pid)

namespace Places

theorem refl (agrees : c.Agrees loose) : c.Places c :=
  { Follows.refl c with
    policy := rfl
    exit := rfl
    clock := rfl
    queues := agrees.queues
    tasks := agrees.tasks
    distinct := agrees.distinct
    placed := fun _ => .inl ⟨rfl, .rfl⟩ }

theorem keeps (h : c.Places d) {pid : Pid} (waits : pid ∈ c.queues.waiting) :
    pid ∈ d.queues.waiting := by
  rcases h.placed pid with ⟨_, same⟩ | ⟨_, after, _⟩
  · exact same.mpr waits
  · exact after

theorem trans (first : c.Places d) (later : d.Places e) : c.Places e :=
  { first.toFollows.trans later.toFollows with
    policy := later.policy.trans first.policy
    exit := later.exit.trans first.exit
    clock := later.clock.trans first.clock
    queues := later.queues
    tasks := later.tasks
    distinct := later.distinct
    placed := by
      intro pid
      rcases first.placed pid with ⟨same, waits⟩ | ⟨absent, waits, slot, slice, before, between⟩
      · rcases later.placed pid with ⟨same', waits'⟩ | ⟨absent, waits', slot, slice, between, after⟩
        · exact .inl ⟨same'.trans same, waits'.trans waits⟩
        · exact .inr ⟨fun h => absent (waits.mpr h), waits', slot, slice, same.symm.trans between, after⟩
      · rcases later.placed pid with ⟨same', _⟩ | ⟨absent', _⟩
        · exact .inr ⟨absent, later.keeps waits, slot, slice, before, same'.trans between⟩
        · exact absurd waits absent' }

theorem agrees (h : c.Places d) (before : c.Agrees loose) : d.Agrees loose where
  queues := h.queues
  tasks := h.tasks
  distinct := h.distinct
  queued pid waits := by
    rcases h.placed pid with ⟨same, iff⟩ | ⟨_, _, slot, slice, _, after⟩
    · simpa only [SchedClass.state?, same] using before.queued pid (iff.mp waits)
    · rw [SchedClass.state?, after]
      rfl
  waits pid queued := by
    rcases h.placed pid with ⟨same, _⟩ | ⟨_, waits, _⟩
    · rw [SchedClass.state?, same] at queued
      exact (before.waits pid queued).imp h.keeps id
    · exact .inl waits

end Places

theorem Agrees.tighten {pid : Pid} (agrees : c.Agrees [pid]) (waits : pid ∈ c.queues.waiting) :
    c.Agrees [] where
  queues := agrees.queues
  tasks := agrees.tasks
  distinct := agrees.distinct
  queued := agrees.queued
  waits other queued := by
    rcases agrees.waits other queued with found | same
    · exact .inl found
    · exact .inl (List.mem_singleton.mp same ▸ waits)

section

variable (agrees : c.Agrees loose)

include agrees

theorem Agrees.of_shifts {q : Queues} (moved : c.queues.Shifts q [] []) (memory : ω) :
    ({ c with queues := q, memory } : SchedClass ω).Agrees loose where
  queues := moved.wellFormed
  tasks := agrees.tasks
  distinct := moved.waiting_perm.nodup_iff.mpr agrees.distinct
  queued pid waits := agrees.queued pid (moved.waiting_perm.mem_iff.mp waits)
  waits pid queued := (agrees.waits pid queued).imp moved.waiting_perm.mem_iff.mpr id

theorem call_places (cpu : CpuId) (body : Callback ω α) : c.Places (c.call cpu body).2 := by
  have moved : c.queues.Shifts (c.invoke cpu body).2.queues [] [] :=
    Callback.run_shifts cpu c.clock body (p := ⟨c.queues, [], none, c.memory⟩) agrees.queues
  have after := Agrees.of_shifts agrees moved (c.invoke cpu body).2.memory
  have state : (c.call cpu body).2 = c.resume (c.invoke cpu body).2 := by
    unfold call
    dsimp only
    split <;> rfl
  rw [state]
  exact
    { current := rfl
      previous := rfl
      cpus := moved.cpus
      slot := fun _ => .inl rfl
      policy := rfl
      exit := rfl
      clock := rfl
      queues := after.queues
      tasks := after.tasks
      distinct := after.distinct
      placed := fun _ => .inl ⟨rfl, moved.waiting_perm.mem_iff⟩ }

theorem push_places {queue : QueueId} {cpu : CpuId} {pid : Pid} {r : Queues}
    (pushed : c.queues.push queue cpu pid = .ok r) (registered : c.tasks.contains pid = true)
    (absent : pid ∉ c.queues.waiting) (slice : Nanos) :
    c.Places { c with
      queues := r
      tasks := c.tasks.modify pid fun slot =>
        { slot with task := { slot.task with slice }, state := .queued } } := by
  have gain := Queues.push_shifts agrees.queues pushed
  have waiting := gain.waiting_gain
  obtain ⟨slot, found⟩ := Table.contains_iff_exists.mp registered
  have slots : ∀ other, (c.tasks.modify pid fun slot =>
        { slot with task := { slot.task with slice }, state := .queued }).get? other =
      if other = pid then some ⟨{ slot.task with slice }, .queued⟩ else c.tasks.get? other := by
    intro other
    rw [Table.get?_modify]
    split
    · rename_i same
      rw [same, found]
      rfl
    · rfl
  refine
    { current := rfl
      previous := rfl
      cpus := gain.cpus
      slot := ?_
      policy := rfl
      exit := rfl
      clock := rfl
      queues := gain.wellFormed
      tasks := agrees.tasks.modify _ _
      distinct := waiting.nodup_iff.mpr (List.nodup_cons.mpr ⟨absent, agrees.distinct⟩)
      placed := ?_ }
  · intro other
    by_cases same : other = pid
    · subst same
      exact .inr ⟨slot, slice, found, by rw [slots, if_pos rfl]⟩
    · exact .inl (by rw [slots, if_neg same])
  · intro other
    by_cases same : other = pid
    · subst same
      exact .inr ⟨absent, waiting.mem_iff.mpr List.mem_cons_self, slot, slice, found,
        by rw [slots, if_pos rfl]⟩
    · refine .inl ⟨by rw [slots, if_neg same], ?_⟩
      rw [waiting.mem_iff, List.mem_cons, or_iff_right same]

omit agrees in
theorem placeOne_inv {cpu : CpuId} {placed : List Pid} {p : Placement}
    (made : c.placeOne cpu placed p = .ok d) :
    c.tasks.contains p.pid = true ∧ p.pid ∉ placed ∧ p.pid ∉ c.queues.waiting ∧
      ∃ r, c.queues.push p.queue cpu p.pid = .ok r ∧
        d = { c with
          queues := r
          tasks := c.tasks.modify p.pid fun slot =>
            { slot with task := { slot.task with slice := p.slice }, state := .queued } } := by
  unfold placeOne at made
  split at made
  · cases made
  · rename_i registered
    split at made
    · cases made
    · rename_i fresh
      simp only [Queues.contains, Bool.or_eq_true, List.contains_iff_mem, not_or] at fresh
      split at made
      · cases made
      · rename_i queues pushed
        exact ⟨by simpa using registered, fresh.1, fresh.2, queues, pushed, (Except.ok.inj made).symm⟩

theorem placeOne_places {cpu : CpuId} {placed : List Pid} {p : Placement}
    (made : c.placeOne cpu placed p = .ok d) : c.Places d ∧ p.pid ∈ d.queues.waiting := by
  obtain ⟨registered, _, absent, r, pushed, rfl⟩ := placeOne_inv made
  have waiting := (Queues.push_shifts agrees.queues pushed).waiting_gain
  exact ⟨push_places agrees pushed registered absent p.slice, waiting.mem_iff.mpr List.mem_cons_self⟩

end

theorem place_closure {R : SchedClass ω → SchedClass ω → Prop} (refl : ∀ c, R c c)
    (trans : ∀ {c d e}, R c d → R d e → R c e)
    (one : ∀ {c d cpu placed p}, c.placeOne cpu placed p = .ok d → R c d)
    (c : SchedClass ω) (cpu : CpuId) (placed : List Pid) (placements : List Placement) :
    R c (c.place cpu placed placements).2 := by
  induction placements generalizing c placed with
  | nil => exact refl c
  | cons p rest ih =>
    unfold place
    split
    · exact refl c
    · rename_i made
      exact trans (one made) (ih _ _)

theorem enqueueGlobal_inv {pid : Pid} (made : c.enqueueGlobal pid = .ok d) :
    ∃ r, c.queues.push globalQueue 0 pid = .ok r ∧
      d = { c with
        queues := r
        tasks := c.tasks.modify pid fun slot =>
          { slot with task := { slot.task with slice := defaultSlice }, state := .queued } } := by
  unfold enqueueGlobal at made
  split at made
  · cases made
  · rename_i pushed
    exact ⟨_, pushed, (Except.ok.inj made).symm⟩

theorem enqueueAllGlobal_closure {R : SchedClass ω → SchedClass ω → Prop} (refl : ∀ c, R c c)
    (trans : ∀ {c d e}, R c d → R d e → R c e) (one : ∀ {c d pid}, c.enqueueGlobal pid = .ok d → R c d)
    (c : SchedClass ω) (pids : List Pid) : R c (c.enqueueAllGlobal pids) := by
  induction pids generalizing c with
  | nil => exact refl c
  | cons pid rest ih =>
    have first : R c ((c.enqueueGlobal pid).toOption.getD c) := by
      cases made : c.enqueueGlobal pid with
      | error e => exact refl c
      | ok d => exact one made
    exact trans first (ih _)

theorem place_places (agrees : c.Agrees loose) (cpu : CpuId) (placed : List Pid)
    (placements : List Placement) : c.Places (c.place cpu placed placements).2 := by
  induction placements generalizing c placed with
  | nil => exact Places.refl agrees
  | cons p rest ih =>
    unfold place
    split
    · exact Places.refl agrees
    · rename_i d made
      have first := (placeOne_places agrees made).1
      exact first.trans (ih (first.agrees agrees) _)

theorem place_waiting (agrees : c.Agrees loose) {cpu : CpuId} {placed all : List Pid}
    {placements : List Placement} (known : ∀ pid ∈ placed, pid ∈ c.queues.waiting)
    (made : (c.place cpu placed placements).1 = .ok all) :
    ∀ pid ∈ all, pid ∈ (c.place cpu placed placements).2.queues.waiting := by
  induction placements generalizing c placed with
  | nil =>
    cases Except.ok.inj made
    exact known
  | cons p rest ih =>
    unfold place at made ⊢
    split at made
    · cases made
    · rename_i d one
      obtain ⟨first, waits⟩ := placeOne_places agrees one
      apply ih (first.agrees agrees) _ made
      intro pid member
      rcases List.mem_append.mp member with old | new
      · exact first.keeps (known pid old)
      · exact List.mem_singleton.mp new ▸ waits

theorem callAndPlace_places (agrees : c.Agrees loose) (cpu : CpuId) (body : Callback ω α) :
    c.Places (c.callAndPlace cpu body).2 := by
  have called := call_places agrees cpu body
  unfold callAndPlace
  split <;> rename_i outcome <;> rw [outcome] at called
  · exact called
  · exact called.trans (place_places (called.agrees agrees) _ _ _)

theorem callAndPlace_waiting (agrees : c.Agrees loose) {cpu : CpuId} {body : Callback ω α}
    {placed : List Pid} (made : (c.callAndPlace cpu body).1 = .ok placed) :
    ∀ pid ∈ placed, pid ∈ (c.callAndPlace cpu body).2.queues.waiting := by
  have called := call_places agrees cpu body
  unfold callAndPlace at made ⊢
  split at made <;> rename_i outcome <;> rw [outcome] at called
  · cases made
  · exact place_waiting (called.agrees agrees) (by simp) made

end LoadableSched.SchedClass
