import LoadableSched.Proofs.Class.Leading
import LoadableSched.Proofs.Class.Serving

/-!
What becomes of the placements that a callback asks for. They are kept until the callback returns, and
then the class makes them or removes the policy, except for those of a callback that brings a task under
the policy: they are dropped, and nobody is told.
-/

namespace LoadableSched.SchedClass

variable {ω : Type} {c d : SchedClass ω} {cpu : CpuId}

def Holds (d : SchedClass ω) (p : Placement) : Prop :=
  ∃ slot, d.tasks.get? p.pid = some slot ∧ slot.state = .queued ∧ slot.task.slice = p.slice

theorem placeOne_get? {placed : List Pid} {p : Placement} (made : c.placeOne cpu placed p = .ok d) :
    d.Holds p ∧ ∀ other, other ≠ p.pid → d.tasks.get? other = c.tasks.get? other := by
  obtain ⟨registered, _, _, r, _, rfl⟩ := placeOne_inv made
  obtain ⟨slot, found⟩ := Table.contains_iff_exists.mp registered
  refine ⟨⟨⟨{ slot.task with slice := p.slice }, .queued⟩, ?_, rfl, rfl⟩, fun other apart => ?_⟩
  · rw [Table.get?_modify, if_pos rfl, found]
    rfl
  · rw [Table.get?_modify, if_neg apart]

theorem place_all {placed all : List Pid} {placements : List Placement}
    (made : (c.place cpu placed placements).1 = .ok all) :
    Puts cpu c placements (c.place cpu placed placements).2 ∧
      (∀ p ∈ placements, (c.place cpu placed placements).2.Holds p) ∧
      ∀ pid ∈ placed, (c.place cpu placed placements).2.tasks.get? pid = c.tasks.get? pid := by
  induction placements generalizing c placed with
  | nil => exact ⟨.refl c, fun _ member => absurd member List.not_mem_nil, fun _ _ => rfl⟩
  | cons p rest ih =>
    unfold place at made ⊢
    split at made
    · cases made
    rename_i d one
    obtain ⟨later, holds, still⟩ := ih made
    obtain ⟨here, others⟩ := placeOne_get? one
    have fresh : p.pid ∉ placed := (placeOne_inv one).2.1
    -- The task of the first placement is among those placed, so the later ones leave it alone.
    have first : ((d.place cpu (placed ++ [p.pid]) rest).2).Holds p := by
      obtain ⟨slot, found, kept⟩ := here
      exact ⟨slot, (still p.pid (by simp)).trans found, kept⟩
    refine ⟨(placeOne_puts one).trans later, List.forall_mem_cons.mpr ⟨first, holds⟩, ?_⟩
    intro pid member
    rw [still pid (List.mem_append_left _ member)]
    exact others pid fun same => fresh (same ▸ member)

namespace Inquiry

variable {i : Inquiry ω}

/-- All placements that the callback asked for are made: the tasks stand at the ends of the lines in the
order of the requests, they wait, and they have their slices. -/
structure Applied (i : Inquiry ω) : Prop where
  puts : Puts i.localCpu i.called i.dispatches i.after
  holds : ∀ p ∈ i.dispatches, i.after.Holds p

def Honours (i : Inquiry ω) : Prop := i.after.policy = none ∨ i.Applied

/-- A task comes under the policy, nothing goes wrong, and yet there are placements to be made. -/
def Drops (i : Inquiry ω) : Prop :=
  i.Enables ∧ i.failure = none ∧ i.dispatches ≠ []

theorem reasons_of_fine (fine : i.failure = none) :
    i.misuses = [] ∧ i.refusals = [] ∧ i.faultsOn i.localCpu = [] := by
  have none : i.reasons = [] := List.head?_eq_none_iff.mp (i.failure_eq ▸ fine)
  simp only [reasons, reasonsOn, List.append_eq_nil_iff] at none
  obtain ⟨⟨⟨proper, accepted⟩, faultless⟩, _⟩ := none
  exact ⟨proper, accepted, faultless⟩

theorem applied_of_placed (fine : i.failure = none) (other : ¬ i.Enables) : i.Applied := by
  obtain ⟨proper, accepted, faultless⟩ := reasons_of_fine fine
  rw [faultsOn_placed other] at faultless
  have answer := place_dispatches proper i.localCpu
  rw [faultless] at answer
  obtain ⟨puts, holds, _⟩ := place_all answer
  have after : i.after = (i.called.place i.localCpu [] i.dispatches).2 :=
    (after_fine fine).trans (congrArg Prod.snd (heed_placed proper accepted other))
  rw [← after] at puts holds
  exact ⟨puts, holds⟩

theorem applied_of_enabled (fine : i.failure = none) (enables : i.Enables) :
    i.Applied ↔ i.dispatches = [] := by
  obtain ⟨pid, record, heeds⟩ := heed_enabled (reasons_of_fine fine).1 enables
  have after : i.after = i.called.mapTask pid fun _ => record :=
    (after_fine fine).trans (congrArg Prod.snd heeds)
  constructor
  · intro applied
    refine List.eq_nil_iff_forall_not_mem.mpr fun p member => ?_
    have lines := applied.puts.lines p.queue
    have own := applied.puts.own i.localCpu
    rw [after] at lines own
    by_cases here : p.queue = localQueue
    · have nobody := List.append_right_eq_self.mp own.symm
      rw [if_pos rfl, List.map_eq_nil_iff, List.filter_eq_nil_iff] at nobody
      exact nobody p member (by simpa using here)
    · have nobody := List.append_right_eq_self.mp lines.symm
      rw [List.map_eq_nil_iff, List.filter_eq_nil_iff] at nobody
      exact nobody p member (by simpa using here)
  · intro nothing
    refine ⟨?_, by simp [nothing]⟩
    rw [nothing, after]
    exact ⟨by simp [mapTask], by simp [mapTask], fun other => by simp [state?_mapTask], fun _ => id⟩

end Inquiry

/-- Every placement that a callback asks for is made, or else the policy is removed, with one exception: a
callback that brings a task under the policy and in which nothing goes wrong has its placements dropped. -/
theorem honoured_unless_dropped (c : SchedClass ω) (op : Operation ω) {i : Inquiry ω}
    (asked : i ∈ c.inquiries op) : i.Honours ↔ ¬ i.Drops := by
  have removed := i.after_policy (mem_inquiries asked).1
  unfold Inquiry.Honours Inquiry.Drops
  rw [removed]
  cases failed : i.failure with
  | some reason => simp
  | none =>
    by_cases enables : i.Enables
    · rw [Inquiry.applied_of_enabled failed enables]
      simp [enables]
    · simp [enables, Inquiry.applied_of_placed failed enables]

/-- A policy that places a task as soon as it comes under it. -/
def hasty : Policy Unit where
  name := "hasty"
  init := .done 0
  selectCpu _ previous _ := .done previous
  enqueue task _ := .place task.pid globalQueue 1000
  dispatch _ _ := .done ()
  enable task := do
    .place task.pid globalQueue 1000
    return task

theorem hasty_not_honoured :
    ∃ i ∈ ((new 1 ()).step (.install hasty)).inquiries (.addTask { pid := 1 }), i.Drops ∧ ¬ i.Honours := by
  refine ⟨_, List.mem_singleton_self _, ?_⟩
  have drops : Inquiry.Drops ⟨((new 1 ()).step (.install hasty)).register { pid := 1 }, hasty,
      .enable 1 { pid := 1 }⟩ := ⟨⟨1, { pid := 1 }, rfl⟩, rfl, by decide⟩
  refine ⟨drops, fun honours => ?_⟩
  exact (honoured_unless_dropped ((new 1 ()).step (.install hasty)) (.addTask { pid := 1 })
    (List.mem_singleton_self _)).mp honours drops

/-- The task sleeps on, no queue holds it, and the policy stays in place. -/
theorem hasty_placement_is_lost :
    let c := (new 1 ()).step (.install hasty)
    let d := c.step (.addTask { pid := 1 })
    (c.inquiries (.addTask { pid := 1 })).map Inquiry.dispatches = [[⟨1, globalQueue, 1000⟩]] ∧
      d.policy = some hasty ∧ d.exit = none ∧ d.state? 1 = some .sleeping ∧ d.queues.waiting = [] :=
  ⟨rfl, rfl, rfl, rfl, rfl⟩

end LoadableSched.SchedClass
