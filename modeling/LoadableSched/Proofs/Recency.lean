import LoadableSched.Proofs.Word
import Mathlib.Data.List.Nodup
import Mathlib.Data.List.Perm.Subperm

/-!
Recency stores that have room for every key they are ever given. Nothing is dropped from such a store, and a
value stays under its key until another is put there.
-/

namespace LoadableSched

namespace Store

variable {s s' : Store} {key value : Bytes} {keys : List Bytes}

structure Alike (s s' : Store) : Prop where
  layout : s'.layout = s.layout
  eviction : s'.eviction = s.eviction
  entries : s'.entries.Perm s.entries

theorem Alike.refl (s : Store) : s.Alike s := ⟨rfl, rfl, .refl _⟩

/-- A recency store of entries under some of the keys, all of which it has room for. -/
structure Roomy (s : Store) (keys : List Bytes) : Prop where
  recency : s.eviction = .leastRecent
  distinct : (s.entries.map (·.1)).Nodup
  known : ∀ entry ∈ s.entries, entry.1 ∈ keys
  room : keys.length ≤ s.capacity

theorem get_value (s : Store) (key : Bytes) : (s.get key).1 = s.peek? key := by
  unfold get
  cases s.peek? key with
  | none => rfl
  | some value => cases s.eviction <;> rfl

theorem mem_of_peek (found : s.peek? key = some value) : (key, value) ∈ s.entries := by
  obtain ⟨before, after, split, _⟩ := List.lookup_eq_some_iff.mp found
  simp [split]

theorem lookup_iff {entries : List (Bytes × Bytes)} (distinct : (entries.map (·.1)).Nodup) :
    entries.lookup key = some value ↔ (key, value) ∈ entries := by
  induction entries with
  | nil => simp
  | cons entry rest ih =>
    obtain ⟨k, v⟩ := entry
    obtain ⟨first, distinct⟩ := List.nodup_cons.mp distinct
    by_cases same : key = k
    · subst same
      have once : (key, value) ∉ rest := fun member => first (List.mem_map.mpr ⟨_, member, rfl⟩)
      simp [once, eq_comm]
    · rw [List.lookup_cons, beq_false_of_ne same, ih distinct]
      simp [same]

namespace Roomy

theorem peek_iff (roomy : s.Roomy keys) : s.peek? key = some value ↔ (key, value) ∈ s.entries :=
  lookup_iff roomy.distinct

theorem alike (roomy : s.Roomy keys) (alike : s.Alike s') : s'.Roomy keys where
  recency := alike.eviction.trans roomy.recency
  distinct := (alike.entries.map _).nodup_iff.mpr roomy.distinct
  known entry member := roomy.known entry (alike.entries.mem_iff.mp member)
  room := by
    rw [capacity, alike.layout]
    exact roomy.room

theorem peek_alike (roomy : s.Roomy keys) (alike : s.Alike s') (key : Bytes) : s'.peek? key = s.peek? key := by
  refine Option.ext fun value => ?_
  rw [(roomy.alike alike).peek_iff, roomy.peek_iff, alike.entries.mem_iff]

theorem without_perm (roomy : s.Roomy keys) (there : (key, value) ∈ s.entries) :
    ((key, value) :: s.without key).Perm s.entries := by
  have distinct := List.Nodup.of_map _ roomy.distinct
  have fresh : (key, value) ∉ s.without key := by simp [without]
  refine (List.perm_ext_iff_of_nodup (List.nodup_cons.mpr ⟨fresh, distinct.filter _⟩) distinct).mpr ?_
  rintro ⟨k, v⟩
  by_cases same : k = key
  · subst same
    have only : (k, v) ∈ s.entries → v = value := fun member =>
      Option.some.inj ((roomy.peek_iff.mpr member).symm.trans (roomy.peek_iff.mpr there))
    simp only [without, List.mem_cons, Prod.mk.injEq, true_and, List.mem_filter, ne_eq, not_true_eq_false,
      decide_false, Bool.false_eq_true, and_false, or_false]
    exact ⟨fun same => same ▸ there, only⟩
  · simp [without, same]

theorem get_alike (roomy : s.Roomy keys) (key : Bytes) : s.Alike (s.get key).2 := by
  unfold get
  cases found : s.peek? key with
  | none => exact .refl s
  | some value =>
    simp only [roomy.recency]
    exact ⟨rfl, roomy.recency.symm, roomy.without_perm (roomy.peek_iff.mp found)⟩

theorem put (roomy : s.Roomy keys) (accepts : s.layout.accepts key value = true) (member : key ∈ keys) :
    ∃ s', s.put key value = .ok s' ∧ s'.layout = s.layout ∧ s'.Roomy keys ∧
      ∀ other, s'.peek? other = if other = key then some value else s.peek? other := by
  have fresh : key ∉ (s.without key).map (·.1) := by simp [without]
  have distinct : (((key, value) :: s.without key).map (·.1)).Nodup := by
    rw [List.map_cons]
    exact List.nodup_cons.mpr ⟨fresh, roomy.distinct.sublist (List.filter_sublist.map _)⟩
  have known : ∀ entry ∈ (key, value) :: s.without key, entry.1 ∈ keys := by
    rintro entry (_ | ⟨_, there⟩)
    · exact member
    · exact roomy.known entry (List.mem_of_mem_filter there)
  -- The keys are distinct and all among those there is room for, so that nothing is cut off.
  have fits : ((key, value) :: s.without key).length ≤ s.capacity := by
    have subset : ((key, value) :: s.without key).map (·.1) ⊆ keys := fun k there => by
      obtain ⟨entry, member, rfl⟩ := List.mem_map.mp there
      exact known entry member
    calc ((key, value) :: s.without key).length
        = (((key, value) :: s.without key).map (·.1)).length := List.length_map _ |>.symm
      _ ≤ keys.length := (distinct.subperm subset).length_le
      _ ≤ s.capacity := roomy.room
  have stored : s.put key value = .ok { s with entries := (key, value) :: s.without key } := by
    simp only [Store.put, accepts, Bool.not_true, Bool.false_eq_true, if_false, roomy.recency,
      List.take_of_length_le fits]
  have roomy' : Roomy { s with entries := (key, value) :: s.without key } keys :=
    ⟨roomy.recency, distinct, known, roomy.room⟩
  refine ⟨_, stored, rfl, roomy', fun other => Option.ext fun v => ?_⟩
  rw [roomy'.peek_iff]
  by_cases same : other = key
  · simp [same, without, eq_comm]
  · rw [if_neg same, roomy.peek_iff]
    simp [same, without]

end Roomy

end Store

end LoadableSched
