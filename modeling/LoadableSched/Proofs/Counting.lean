import LoadableSched.Counters.Crowd
import Mathlib.Algebra.BigOperators.Group.List.Basic
import Mathlib.Data.Nat.ModEq

/-!
Nothing that is added to a counter is lost or counted twice, in whatever order the steps of the calls happen:
what was added and not yet taken by a sample is what the counter holds.
-/

namespace LoadableSched

namespace Counters

variable {counter : Counter}

theorem get_set (c : Counters) (which other : Counter) (value : UInt64) :
    (c.set which value).get other = if other = which then value else c.get other := by
  cases which <;> cases other <;> rfl

theorem get_zero (counter : Counter) : zero.get counter = 0 := by
  cases counter <;> rfl

theorem sum_map_ite_zero {α : Type} (p : α → Prop) [DecidablePred p] (f : α → Nat) (l : List α) :
    (l.map fun a => if p a then f a else 0).sum = ((l.filter p).map f).sum := by
  simp [List.sum_map_ite]

def Step.amount (counter : Counter) : Step → Nat
  | .add other amount => if other = counter then amount.toNat else 0
  | _ => 0

theorem Step.sum_adding (counter : Counter) (amounts : List (Counter × UInt64)) :
    ((adding amounts).map (amount counter)).sum = ((amounts.filter (·.1 = counter)).map (·.2.toNat)).sum := by
  rw [← sum_map_ite_zero, adding, List.map_map]
  rfl

def Call.amount (counter : Counter) (call : Call) : Nat :=
  ((call.amounts.filter (·.1 = counter)).map (·.2.toNat)).sum

namespace Ongoing

def pending (counter : Counter) (o : Ongoing) : Nat := (o.todo.map (Step.amount counter)).sum

def taken (counter : Counter) (o : Ongoing) : Nat := if o.call = .sample then (o.read.get counter).toNat else 0

/-- A sample has yet to take what it has not read, each counter once, and no other call takes anything. -/
structure Proper (o : Ongoing) : Prop where
  sample : o.call = .sample → ∃ rest : List Counter, o.todo = rest.map .swap ∧ rest.Nodup ∧
    ∀ counter ∈ rest, o.read.get counter = 0
  other : o.call ≠ .sample → ∀ counter, .swap counter ∉ o.todo

end Ongoing

theorem Call.begin_proper (call : Call) : call.begin.Proper where
  sample same := by
    cases same
    exact ⟨Counter.all, rfl, by decide, fun counter _ => get_zero counter⟩
  other different counter := by
    cases call with
    | sample => exact absurd rfl different
    | look => simp [Call.begin, Call.steps]
    | _ => simp [Call.begin, Call.steps, Step.adding]

theorem Call.pending_begin (counter : Counter) (call : Call) : call.begin.pending counter = call.amount counter := by
  cases call with
  | sample => rfl
  | look => rfl
  | _ => exact Step.sum_adding counter _

section Step

variable {call : Call} {step : Step} {rest : List Step} {read shared read' shared' : Counters}

theorem Ongoing.Proper.of_sample (proper : Proper ⟨.sample, step :: rest, read⟩) :
    ∃ other later, step = .swap other ∧ rest = List.map .swap later ∧ other ∉ later ∧ later.Nodup ∧
      read.get other = 0 ∧ ∀ counter ∈ later, read.get counter = 0 := by
  obtain ⟨counters, todo, once, unread⟩ := proper.sample rfl
  cases counters with
  | nil => cases todo
  | cons other later =>
    obtain ⟨fresh, once⟩ := List.nodup_cons.mp once
    obtain ⟨first, todo⟩ := List.cons.inj todo
    exact ⟨other, later, first, todo, fresh, once, unread other List.mem_cons_self,
      fun counter member => unread counter (List.mem_cons_of_mem other member)⟩

theorem perform_proper (proper : Ongoing.Proper ⟨call, step :: rest, read⟩)
    (made : step.perform read shared = (read', shared')) : Ongoing.Proper ⟨call, rest, read'⟩ where
  sample same := by
    cases same
    obtain ⟨other, later, rfl, todo, fresh, once, -, unread⟩ := proper.of_sample
    cases made
    refine ⟨later, todo, once, fun counter member => ?_⟩
    have different : counter ≠ other := fun same => fresh (same ▸ member)
    rw [get_set, if_neg different, unread counter member]
  other different counter member := proper.other different counter (List.mem_cons_of_mem step member)

theorem perform_conserves (proper : Ongoing.Proper ⟨call, step :: rest, read⟩)
    (made : step.perform read shared = (read', shared')) (counter : Counter) :
    Ongoing.taken counter ⟨call, rest, read'⟩ + (shared'.get counter).toNat +
        Ongoing.pending counter ⟨call, rest, read'⟩ ≡
      Ongoing.taken counter ⟨call, step :: rest, read⟩ + (shared.get counter).toNat +
        Ongoing.pending counter ⟨call, step :: rest, read⟩ [MOD 2 ^ 64] := by
  simp only [Ongoing.taken, Ongoing.pending, List.map_cons, List.sum_cons]
  by_cases sample : call = .sample
  · subst sample
    obtain ⟨other, later, rfl, -, -, -, unread, -⟩ := proper.of_sample
    cases made
    simp only [get_set, Step.amount, if_true, Nat.zero_add]
    by_cases same : counter = other
    · subst same
      rw [if_pos rfl, if_pos rfl, unread, Nat.add_comm (shared.get counter).toNat]
    · rw [if_neg same, if_neg same]
  · cases step with
    | swap other => exact absurd List.mem_cons_self (proper.other sample other)
    | load other =>
      cases made
      simp only [Step.amount, if_neg sample, Nat.zero_add]
      rfl
    | add other amount =>
      cases made
      simp only [add, get_set, Step.amount, if_neg sample, Nat.zero_add]
      by_cases same : counter = other
      · subst same
        rw [if_pos rfl, if_pos rfl, UInt64.toNat_add, ← Nat.add_assoc]
        exact (Nat.mod_modEq _ _).add_right _
      · rw [if_neg same, if_neg (Ne.symm same), Nat.zero_add]

end Step

namespace Crowd

variable {crowd : Crowd}

def pending (counter : Counter) (crowd : Crowd) : Nat := (crowd.calls.map (Ongoing.pending counter)).sum

def taken (counter : Counter) (crowd : Crowd) : Nat := (crowd.calls.map (Ongoing.taken counter)).sum

/-- What is taken, there, or still to come. -/
def total (counter : Counter) (crowd : Crowd) : Nat :=
  crowd.taken counter + (crowd.shared.get counter).toNat + crowd.pending counter

def Proper (crowd : Crowd) : Prop := ∀ o ∈ crowd.calls, o.Proper

theorem turn_cases (crowd : Crowd) (i : Nat) :
    crowd.turn i = crowd ∨
    ∃ before after call step rest read read' shared',
      crowd.calls = before ++ ⟨call, step :: rest, read⟩ :: after ∧
      step.perform read crowd.shared = (read', shared') ∧
      crowd.turn i = ⟨shared', before ++ ⟨call, rest, read'⟩ :: after⟩ := by
  unfold turn
  split
  next call step rest read there =>
    obtain ⟨inside, found⟩ := List.getElem?_eq_some_iff.mp there
    obtain ⟨before, after, split, -, replaced⟩ :=
      @List.exists_of_set _ i ⟨call, rest, (step.perform read crowd.shared).1⟩ _ inside
    rw [found] at split
    exact .inr ⟨before, after, call, step, rest, read, _, _, split, rfl, congrArg _ replaced⟩
  · exact .inl rfl

theorem turn_conserves (proper : crowd.Proper) (i : Nat) :
    (crowd.turn i).Proper ∧ ∀ counter, (crowd.turn i).total counter ≡ crowd.total counter [MOD 2 ^ 64] := by
  rcases crowd.turn_cases i with same | ⟨before, after, call, step, rest, read, read', shared', split, made, turned⟩
  · rw [same]
    exact ⟨proper, fun _ => rfl⟩
  · have here : Ongoing.Proper ⟨call, step :: rest, read⟩ := proper _ (split ▸ by simp)
    rw [turned]
    refine ⟨fun o member => ?_, fun counter => ?_⟩
    · rcases List.mem_append.mp member with old | new
      · exact proper o (split ▸ List.mem_append_left _ old)
      · rcases List.mem_cons.mp new with rfl | old
        · exact perform_proper here made
        · exact proper o (split ▸ List.mem_append_right _ (List.mem_cons_of_mem _ old))
    · have moved := perform_conserves here made counter
      simp only [total, taken, pending, split, List.map_append, List.map_cons, List.sum_append, List.sum_cons]
      unfold Nat.ModEq at moved ⊢
      omega

theorem turns_conserve (proper : crowd.Proper) (schedule : List Nat) :
    (crowd.turns schedule).Proper ∧
      ∀ counter, (crowd.turns schedule).total counter ≡ crowd.total counter [MOD 2 ^ 64] := by
  induction schedule generalizing crowd with
  | nil => exact ⟨proper, fun _ => rfl⟩
  | cons i rest ih =>
    obtain ⟨proper, first⟩ := turn_conserves proper i
    obtain ⟨proper, later⟩ := ih proper
    exact ⟨proper, fun counter => (later counter).trans (first counter)⟩

theorem start_total (calls : List Call) (counter : Counter) :
    (start calls).total counter = (calls.map (Call.amount counter)).sum := by
  have none : ∀ call : Call, call.begin.taken counter = 0 := fun call => by
    rw [Call.begin, Ongoing.taken, get_zero]
    exact ite_self 0
  have taken : (start calls).taken counter = 0 := by
    rw [Crowd.taken, start, List.map_map]
    exact List.sum_eq_zero fun n member => by
      obtain ⟨call, -, rfl⟩ := List.mem_map.mp member
      exact none call
  have pending : (start calls).pending counter = (calls.map (Call.amount counter)).sum := by
    rw [Crowd.pending, start, List.map_map]
    exact congrArg List.sum (List.map_congr_left fun call _ => call.pending_begin counter)
  rw [total, taken, pending, start, get_zero]
  exact Nat.zero_add _

/-- Once all calls are over, nothing is to come, and what was taken was returned. -/
theorem Finished.total (finished : crowd.Finished) (counter : Counter) :
    crowd.total counter =
      (crowd.samples.map fun s => (s.get counter).toNat).sum + (crowd.shared.get counter).toNat := by
  have pending : crowd.pending counter = 0 := by
    refine List.sum_eq_zero fun n member => ?_
    obtain ⟨o, there, rfl⟩ := List.mem_map.mp member
    rw [Ongoing.pending, finished o there]
    rfl
  have taken : crowd.taken counter = (crowd.samples.map fun s => (s.get counter).toNat).sum := by
    have ended : crowd.calls.filter (fun o => o.call = .sample ∧ o.todo = []) =
        crowd.calls.filter fun o => o.call = .sample :=
      List.filter_congr fun o there => by simp [finished o there]
    rw [Crowd.taken, samples, ended, List.map_map]
    exact sum_map_ite_zero _ _ _
  rw [Crowd.total, taken, pending, Nat.add_zero]

theorem turn_todo (crowd : Crowd) (i j : Nat) :
    (crowd.turn i).calls[j]?.map (·.todo.length) =
      crowd.calls[j]?.map fun o => o.todo.length - if i = j then 1 else 0 := by
  unfold turn
  split
  next call step rest read there =>
    rw [List.getElem?_set]
    by_cases same : i = j
    · subst same
      obtain ⟨inside, found⟩ := List.getElem?_eq_some_iff.mp there
      simp [found, inside]
    · simp [same]
  next idle =>
    by_cases same : i = j
    · subst same
      rcases there : crowd.calls[i]? with _ | ⟨call, _ | ⟨step, rest⟩, read⟩
      · rfl
      · exact congrArg some (Nat.zero_sub _).symm
      · exact absurd there (idle call step rest read)
    · simp [same]

/-- Calls that had as many turns as they have steps are over. -/
theorem turns_finish {schedule : List Nat}
    (enough : ∀ i o, crowd.calls[i]? = some o → o.todo.length ≤ schedule.count i) :
    (crowd.turns schedule).Finished := by
  induction schedule generalizing crowd with
  | nil =>
    intro o member
    obtain ⟨i, there⟩ := List.mem_iff_getElem?.mp member
    exact List.eq_nil_of_length_eq_zero (Nat.le_zero.mp (enough i o there))
  | cons i rest ih =>
    refine ih fun j o there => ?_
    have todo := crowd.turn_todo i j
    rw [there] at todo
    obtain ⟨before, there, same⟩ := Option.map_eq_some_iff.mp todo.symm
    have enough := enough j before there
    rw [List.count_cons] at enough
    by_cases turn : i = j <;> simp [turn] at same enough <;> omega

/-- In whatever order the steps of calls happen, what the samples took and what is there is what was added; while
calls are under way, along with what they have still to add. Calls are over once each had its turns. -/
theorem counts_are_conserved (calls : List Call) (schedule : List Nat) (counter : Counter) :
    ((start calls).turns schedule).taken counter + (((start calls).turns schedule).shared.get counter).toNat +
        ((start calls).turns schedule).pending counter ≡ (calls.map (Call.amount counter)).sum [MOD 2 ^ 64] ∧
    (((start calls).turns schedule).Finished →
      (((start calls).turns schedule).samples.map fun s => (s.get counter).toNat).sum +
          (((start calls).turns schedule).shared.get counter).toNat ≡
        (calls.map (Call.amount counter)).sum [MOD 2 ^ 64]) ∧
    ((∀ i call, calls[i]? = some call → call.steps.length ≤ schedule.count i) →
      ((start calls).turns schedule).Finished) := by
  have proper : (start calls).Proper := fun o member => by
    obtain ⟨call, -, rfl⟩ := List.mem_map.mp member
    exact call.begin_proper
  have conserved := (turns_conserve proper schedule).2 counter
  rw [start_total] at conserved
  refine ⟨conserved, fun finished => finished.total counter ▸ conserved, fun enough =>
    turns_finish fun i o there => ?_⟩
  rw [start, List.getElem?_map] at there
  obtain ⟨call, listed, rfl⟩ := Option.map_eq_some_iff.mp there
  exact enough i call listed

def racing : List Call := [.recordWait 0xffffffffffffffff, .recordWait 3, .sample]

/-- The sample takes the first count before the second is added, and both times. -/
theorem counts_are_conserved_racing :
    let crowd := (start racing).turns ([0, 2, 1, 0, 1] ++ List.replicate 9 2)
    crowd.Finished ∧ crowd.samples.map (·.enqueues) = [1] ∧ crowd.shared.enqueues = 1 ∧
      crowd.samples.map (·.wait) = [2] ∧
      (crowd.samples.map fun s => s.wait.toNat).sum + crowd.shared.wait.toNat ≡
        0xffffffffffffffff + 3 [MOD 2 ^ 64] :=
  have finished : ((start racing).turns ([0, 2, 1, 0, 1] ++ List.replicate 9 2)).Finished := by decide
  ⟨finished, by decide, by decide, by decide,
    (counts_are_conserved racing ([0, 2, 1, 0, 1] ++ List.replicate 9 2) .wait).2.1 finished⟩

end Crowd

end Counters

end LoadableSched
