import LoadableSched.Proofs.Class.Hearing
import LoadableSched.Proofs.Class.Dispatching

/-!
Policies that place a task only when they are asked about it. What such a policy does in a callback
changes the state of no task, for the task that it may place is about to wait anyway; so the states of the
tasks are what the operations make of them, whether the policy keeps its place or not.
-/

namespace LoadableSched

variable {ω α : Type}

/-- A policy that places at most the task that it is asked about, and only when it is asked for a processor
or a queue; the number of a task is not its to change. -/
structure Policy.Focused (p : Policy ω) : Prop where
  selectCpu : ∀ task previous flags, (p.selectCpu task previous flags).PlacesOnly (· = task.pid)
  enqueue : ∀ task flags, (p.enqueue task flags).PlacesOnly (· = task.pid)
  dispatch : ∀ cpu previous, (p.dispatch cpu previous).PlacesOnly fun _ => False
  running : ∀ task, (p.running task).PlacesOnly fun _ => False
  stopping : ∀ task runnable, (p.stopping task runnable).PlacesOnly fun _ => False
  enable : ∀ cpu now q m task,
    ((p.enable task).run cpu now ⟨q, [], none, m⟩).1.pid = task.pid

namespace SchedClass

variable {c d e : SchedClass ω} {loose : List Pid} {policy : Policy ω}

def Numbered (c : SchedClass ω) : Prop :=
  ∀ pid slot, c.tasks.get? pid = some slot → slot.task.pid = pid

theorem Numbered.of_follows (numbered : c.Numbered) (h : c.Follows d) : d.Numbered := by
  intro pid slot found
  obtain ⟨before, slice, found', same⟩ := h.task found
  rw [same]
  exact numbered pid before found'

theorem Numbered.modify (numbered : c.Numbered) (pid : Pid) (f : Slot → Slot)
    (valid : ∀ slot, c.tasks.get? pid = some slot → (f slot).task.pid = pid) :
    ({ c with tasks := c.tasks.modify pid f } : SchedClass ω).Numbered :=
  Table.forall_modify numbered valid

structure Quiet (c d : SchedClass ω) : Prop where
  current : d.current = c.current
  cpus : d.cpus = c.cpus
  states : ∀ pid, d.state? pid = c.state? pid
  numbered : c.Numbered → d.Numbered
  policy : d.policy = c.policy ∨ d.policy = none

namespace Quiet

theorem refl (c : SchedClass ω) : c.Quiet c := ⟨rfl, rfl, fun _ => rfl, id, .inl rfl⟩

theorem trans (first : c.Quiet d) (later : d.Quiet e) : c.Quiet e where
  current := later.current.trans first.current
  cpus := later.cpus.trans first.cpus
  states pid := (later.states pid).trans (first.states pid)
  numbered before := later.numbered (first.numbered before)
  policy := by
    rcases later.policy with same | gone
    · rw [same]
      exact first.policy
    · exact .inr gone

theorem held (h : c.Quiet d) (held : c.Held) : d.Held := by
  intro cpu pid here
  rw [current?, h.current] at here
  exact (h.states pid).trans (held cpu pid here)

end Quiet

theorem Places.quiet (h : c.Places d) (states : ∀ pid, d.state? pid = c.state? pid) : c.Quiet d :=
  ⟨h.current, h.cpus, states, fun numbered => numbered.of_follows h.toFollows, .inl h.policy⟩

theorem abort_quiet (agrees : c.Agrees loose) (active : c.policy.isSome) (reason : ClassError) :
    c.Quiet (c.abort reason) := by
  obtain ⟨policy, active⟩ := Option.isSome_iff_exists.mp active
  have removed : ({ c with policy := none } : SchedClass ω).Agrees loose :=
    agrees.congr rfl agrees.tasks fun _ => rfl
  have follows := requeueOrphans_follows removed
  have state : c.abort reason = { requeueOrphans { c with policy := none } with
      exit := some ⟨policy.name, reason⟩ } := by
    simp only [abort, active]
  rw [state]
  exact ⟨follows.current, follows.cpus, requeueOrphans_state? removed,
    fun numbered => Numbered.of_follows (c := { c with policy := none })
      (d := requeueOrphans { c with policy := none }) numbered follows,
    .inr (requeueOrphans_policy removed)⟩

theorem enqueueGlobal_quiet {pid : Pid} (agrees : c.Agrees [pid])
    (queued : c.state? pid = some .queued) (absent : pid ∉ c.queues.waiting) :
    ∃ d, c.enqueueGlobal pid = .ok d ∧ c.Quiet d := by
  obtain ⟨d, made, places, _⟩ := enqueueGlobal_places agrees (contains_of_state? queued) absent
  obtain ⟨e, same, serves, _⟩ := enqueueGlobal_serves agrees queued absent
  cases Except.ok.inj (made.symm.trans same)
  refine ⟨d, made, places.quiet fun other => ?_⟩
  exact (serves.settled other).resolve_right fun ⟨_, _, member, _⟩ => absurd member List.not_mem_nil

/-! Callbacks. -/

theorem call_ok {cpu : CpuId} {body : Callback ω α} {value : α} {placements : List Placement}
    (made : c.call cpu body = (.ok (value, placements), d)) :
    value = (c.invoke cpu body).1 ∧ placements = (c.invoke cpu body).2.placements ∧
      d = c.resume (c.invoke cpu body).2 := by
  unfold call at made
  dsimp only at made
  split at made
  · cases congrArg Prod.fst made
  · cases made
    exact ⟨rfl, rfl, rfl⟩

theorem placeOne_states {cpu : CpuId} {placed : List Pid} {p : Placement}
    (made : c.placeOne cpu placed p = .ok d) (queued : c.state? p.pid = some .queued) (pid : Pid) :
    d.state? pid = c.state? pid := by
  obtain ⟨registered, _, _, r, _, rfl⟩ := placeOne_inv made
  obtain ⟨slot, found⟩ := Table.contains_iff_exists.mp registered
  rw [state?, Table.get?_modify]
  split
  · rename_i same
    rw [same, queued, found]
    rfl
  · rfl

theorem place_states {cpu : CpuId} {placed : List Pid} {placements : List Placement}
    (queued : ∀ p ∈ placements, c.state? p.pid = some .queued) (pid : Pid) :
    (c.place cpu placed placements).2.state? pid = c.state? pid := by
  induction placements generalizing c placed with
  | nil => rfl
  | cons p rest ih =>
    unfold place
    split
    · rfl
    · rename_i made
      have same := placeOne_states made (queued p List.mem_cons_self)
      refine (ih fun q member => ?_).trans (same pid)
      exact (same q.pid).trans (queued q (List.mem_cons_of_mem _ member))

theorem callAndPlace_quiet (agrees : c.Agrees loose) {cpu : CpuId} {body : Callback ω α}
    (queued : ∀ p ∈ (c.invoke cpu body).2.placements, c.state? p.pid = some .queued) :
    c.Quiet (c.callAndPlace cpu body).2 := by
  refine (callAndPlace_places agrees cpu body).quiet fun pid => ?_
  unfold callAndPlace call
  dsimp only
  cases (c.invoke cpu body).2.error with
  | some reason => rfl
  | none => exact place_states (c := c.resume (c.invoke cpu body).2) queued pid

theorem consult_quiet (agrees : c.Agrees []) (active : c.policy.isSome) {cpu : CpuId}
    {body : Callback ω α} (nothing : (c.invoke cpu body).2.placements = []) :
    c.Quiet (c.consult cpu body) := by
  have quiet : c.Quiet (c.callAndPlace cpu body).2 := callAndPlace_quiet agrees (by simp [nothing])
  have places := callAndPlace_places agrees cpu body
  unfold consult
  split <;> rename_i outcome <;> rw [outcome] at quiet places
  · exact quiet.trans (abort_quiet (places.agrees agrees) (places.policy ▸ active) _)
  · exact quiet

theorem enqueueWith_quiet {pid : Pid} (agrees : c.Agrees [pid]) (active : c.policy.isSome)
    (numbered : c.Numbered) (queued : c.state? pid = some .queued) (focused : policy.Focused)
    (cpu : CpuId) (flags : UInt64) : c.Quiet (c.enqueueWith policy pid cpu flags) := by
  obtain ⟨slot, found, _⟩ := Option.map_eq_some_iff.mp queued
  have task : c.task? pid = some slot.task := by rw [task?, found]; rfl
  have own : ∀ p ∈ (c.invoke cpu (policy.enqueue slot.task flags)).2.placements,
      c.state? p.pid = some .queued := by
    intro p member
    have own := (focused.enqueue slot.task flags _ _ _ p member).resolve_left List.not_mem_nil
    rw [own, numbered pid slot found]
    exact queued
  have quiet := callAndPlace_quiet agrees own
  have places := callAndPlace_places agrees cpu (policy.enqueue slot.task flags)
  unfold enqueueWith
  simp only [task]
  split <;> rename_i outcome <;> rw [outcome] at quiet places
  · exact quiet.trans (abort_quiet (places.agrees agrees) (places.policy ▸ active) _)
  · split
    · exact quiet
    · exact quiet.trans (abort_quiet (places.agrees agrees) (places.policy ▸ active) _)

theorem chooseCpu_quiet {task : Task} (agrees : c.Agrees loose)
    (queued : c.state? task.pid = some .queued) (focused : policy.Focused) (flags : UInt64) :
    c.Quiet (c.chooseCpu policy task flags).2 := by
  have own : ∀ p ∈ (c.invoke task.lastCpu (policy.selectCpu task task.lastCpu flags)).2.placements,
      c.state? p.pid = some .queued := by
    intro p member
    rw [(focused.selectCpu task task.lastCpu flags _ _ _ p member).resolve_left List.not_mem_nil]
    exact queued
  refine (chooseCpu_places agrees policy task flags).quiet fun pid => ?_
  unfold chooseCpu call
  dsimp only
  generalize c.invoke task.lastCpu (policy.selectCpu task task.lastCpu flags) = ran at own
  cases ran.2.error with
  | some reason => rfl
  | none =>
    dsimp only
    split
    · rfl
    · have same : ((c.resume ran.2).place ran.1 [] ran.2.placements).2.state? pid = c.state? pid :=
        place_states (c := c.resume ran.2) own pid
      split <;> rename_i made <;> rw [made] at same <;> exact same

theorem mapTask_quiet {pid : Pid} {f : Task → Task}
    (valid : c.Numbered → ∀ slot, c.tasks.get? pid = some slot → (f slot.task).pid = pid) :
    c.Quiet (c.mapTask pid f) :=
  ⟨rfl, rfl, c.state?_mapTask pid f,
    fun numbered => numbered.modify pid _ (valid numbered), .inl rfl⟩

section

variable (agrees : c.Agrees []) (focused : ∀ policy, c.policy = some policy → policy.Focused)

include agrees focused

theorem refill_quiet (cpu : CpuId) : c.Quiet (c.refill cpu) := by
  unfold refill
  cases active : c.policy with
  | none => exact .refl c
  | some policy =>
    dsimp only
    split
    · exact .refl c
    · exact consult_quiet agrees (by rw [active]; rfl)
        (((focused policy active).dispatch cpu _).nothing cpu _ _ _)

theorem start_quiet (cpu : CpuId) (task : Task) : c.Quiet (c.start cpu task) := by
  unfold start
  cases active : c.policy with
  | none => exact .refl c
  | some policy =>
    exact consult_quiet agrees (by rw [active]; rfl)
      (((focused policy active).running task).nothing cpu _ _ _)

theorem halt_quiet (cpu : CpuId) (task : Task) (runnable : Bool) :
    c.Quiet (c.halt cpu task runnable) := by
  unfold halt
  cases active : c.policy with
  | none => exact .refl c
  | some policy =>
    exact consult_quiet agrees (by rw [active]; rfl)
      (((focused policy active).stopping task runnable).nothing cpu _ _ _)

theorem enable_quiet (pid : Pid) : c.Quiet (c.enable pid) := by
  unfold enable enableWith
  cases active : c.policy with
  | none => exact .refl c
  | some policy =>
    cases found : c.tasks.get? pid with
    | none => simpa [task?, found] using Quiet.refl c
    | some slot =>
      have task : c.task? pid = some slot.task := by rw [task?, found]; rfl
      have places := call_places agrees slot.task.lastCpu (policy.enable slot.task)
      have states : ∀ other, (c.call slot.task.lastCpu (policy.enable slot.task)).2.state? other =
          c.state? other := by
        intro other
        unfold call
        dsimp only
        split <;> rfl
      have quiet := places.quiet states
      have number := (focused policy active).enable slot.task.lastCpu c.clock c.queues c.memory slot.task
      simp only [task]
      split <;> rename_i outcome <;> rw [outcome] at places quiet
      · have still := places.policy.trans active
        exact quiet.trans (abort_quiet (places.agrees agrees) (by rw [still]; rfl) _)
      · obtain ⟨same, _, state⟩ := call_ok outcome
        refine quiet.trans (mapTask_quiet fun numbered slot' found' => ?_)
        have there : c.tasks.get? pid = some slot' := by
          rw [state] at found'
          exact found'
        cases Option.some.inj (there.symm.trans found)
        rw [same]
        exact number.trans (numbered pid slot found')

end

end SchedClass

end LoadableSched
