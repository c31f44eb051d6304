import LoadableSched.Table
import Mathlib.Data.List.Induction
import Mathlib.Data.List.Nodup

/-!
Tables whose keys stand in ascending order. In such a table a key has one entry, so that look-ups
and the list of all values speak of the same things.
-/

namespace LoadableSched.Table

variable {κ α : Type}

theorem contains_eq [DecidableEq κ] (t : Table κ α) (k : κ) : t.contains k = (t.get? k).isSome := rfl

theorem contains_iff_exists [DecidableEq κ] {t : Table κ α} {k : κ} :
    t.contains k = true ↔ ∃ v, t.get? k = some v :=
  Option.isSome_iff_exists

section

variable [DecidableEq κ]

theorem find?_of_distinct {key : α → κ} {items : List α} (distinct : (items.map key).Nodup) {x : α}
    (listed : x ∈ items) : items.find? (key · = key x) = some x := by
  cases found : items.find? (key · = key x) with
  | none => exact absurd (decide_eq_true rfl) (List.find?_eq_none.mp found x listed)
  | some y =>
    have called : key y = key x := by simpa using List.find?_some found
    rw [List.inj_on_of_nodup_map distinct (List.mem_of_find?_eq_some found) listed called]

theorem mem_entries_of_get? {t : Table κ α} {k : κ} {v : α} (found : t.get? k = some v) :
    (k, v) ∈ t.entries := by
  obtain ⟨entries⟩ := t
  simp only [get?] at found ⊢
  induction entries with
  | nil => simp [findEntry] at found
  | cons entry rest ih =>
    obtain ⟨j, w⟩ := entry
    simp only [findEntry] at found
    split at found
    · rename_i same
      cases Option.some.inj found
      simp [same]
    · exact List.mem_cons_of_mem _ (ih found)

theorem contains_iff_mem_keys (t : Table κ α) (k : κ) : t.contains k = true ↔ k ∈ t.keys := by
  obtain ⟨entries⟩ := t
  simp only [contains, get?, keys]
  induction entries with
  | nil => simp [findEntry]
  | cons entry rest ih =>
    obtain ⟨j, w⟩ := entry
    by_cases same : j = k
    · simp [findEntry, same]
    · simp [findEntry, same, Ne.symm same, ih]

theorem keys_modify (t : Table κ α) (k : κ) (f : α → α) : (t.modify k f).keys = t.keys := by
  simp only [keys, modify, List.map_map]
  apply List.map_congr_left
  rintro ⟨j, v⟩ _
  simp only [Function.comp_apply]
  split <;> rfl

theorem contains_modify (t : Table κ α) (k j : κ) (f : α → α) :
    (t.modify k f).contains j = t.contains j := by
  simp only [contains, get?_modify]
  split <;> simp

theorem forall_modify {t : Table κ α} {P : κ → α → Prop} (all : ∀ j v, t.get? j = some v → P j v)
    {k : κ} {f : α → α} (kept : ∀ v, t.get? k = some v → P k (f v)) :
    ∀ j v, (t.modify k f).get? j = some v → P j v := by
  intro j v found
  rw [get?_modify] at found
  split at found
  · rename_i same
    obtain ⟨before, found', rfl⟩ := Option.map_eq_some_iff.mp found
    rw [same] at found' ⊢
    exact kept before found'
  · exact all j v found

theorem mem_flatten_modify {β : Type} {t : Table κ (List β)} {k : κ}
    (present : t.contains k = true) (x y : β) :
    y ∈ (t.modify k (· ++ [x])).values.flatten ↔ y = x ∨ y ∈ t.values.flatten := by
  obtain ⟨pids, found⟩ := contains_iff_exists.mp present
  simp only [values, modify, List.mem_flatten, List.mem_map, exists_exists_and_eq_and]
  constructor
  · rintro ⟨⟨j, line⟩, member, inside⟩
    dsimp only at inside
    split at inside
    · rcases List.mem_append.mp inside with before | last
      · exact .inr ⟨(j, line), member, before⟩
      · exact .inl (List.mem_singleton.mp last)
    · exact .inr ⟨(j, line), member, inside⟩
  · rintro (rfl | ⟨⟨j, line⟩, member, inside⟩)
    · exact ⟨(k, pids), mem_entries_of_get? found, by simp⟩
    · refine ⟨(j, line), member, ?_⟩
      dsimp only
      split
      · exact List.mem_append_left _ inside
      · exact inside

theorem map_get?_erase {β : Type} (t : Table κ α) (k j : κ) (f : α → β) :
    ((t.erase k).get? j).map f = if k = j then none else (t.get? j).map f := by
  rw [get?_erase]
  by_cases same : k = j <;> simp [same, Ne.symm]

theorem get?_foldl_erase {keys : List κ} {t : Table κ α} {j : κ} {v : α}
    (present : (keys.foldl Table.erase t).get? j = some v) : t.get? j = some v := by
  induction keys generalizing t with
  | nil => exact present
  | cons key rest ih =>
    have before := ih present
    rw [get?_erase] at before
    split at before
    · cases before
    · exact before

theorem entries_foldl_erase (keys : List κ) (t : Table κ α) :
    (keys.foldl Table.erase t).entries = t.entries.filter (·.1 ∉ keys) := by
  induction keys generalizing t with
  | nil => exact (List.filter_eq_self.mpr fun _ _ => by simp).symm
  | cons key rest ih =>
    rw [List.foldl_cons, ih, erase, List.filter_filter]
    refine List.filter_congr fun entry _ => ?_
    simp [Bool.and_comm]

theorem keys_foldl_erase (keys : List κ) (t : Table κ α) : (keys.foldl Table.erase t).keys ⊆ t.keys := by
  rw [Table.keys, entries_foldl_erase]
  exact List.map_subset _ List.filter_sublist.subset

theorem get?_foldl_erase_of_notMem {keys : List κ} {key : κ} (absent : key ∉ keys) (t : Table κ α) :
    (keys.foldl Table.erase t).get? key = t.get? key := by
  induction keys generalizing t with
  | nil => rfl
  | cons first rest ih =>
    rw [List.mem_cons, not_or] at absent
    rw [List.foldl_cons, ih absent.2, get?_erase, if_neg absent.1]

theorem get?_eq_none_iff {t : Table κ α} {k : κ} : t.get? k = none ↔ k ∉ t.keys := by
  rw [← contains_iff_mem_keys, contains_eq, Option.not_isSome_iff_eq_none]

theorem findEntry_append (k : κ) (first second : List (κ × α)) :
    findEntry k (first ++ second) = (findEntry k first).or (findEntry k second) := by
  induction first with
  | nil => rfl
  | cons entry rest ih =>
    rw [List.cons_append, findEntry, findEntry, ih]
    split <;> rfl

theorem findEntry_map {β : Type} (k : κ) (f : α → β) (entries : List (κ × α)) :
    findEntry k (entries.map fun e => (e.1, f e.2)) = (findEntry k entries).map f := by
  induction entries with
  | nil => rfl
  | cons entry rest ih =>
    rw [List.map_cons, findEntry, findEntry, ih]
    split <;> rfl

theorem get?_foldl_erase_of_mem {keys : List κ} {key : κ} (member : key ∈ keys) (t : Table κ α) :
    (keys.foldl Table.erase t).get? key = none := by
  refine Option.eq_none_iff_forall_ne_some.mpr fun v present => ?_
  have entry := mem_entries_of_get? present
  rw [entries_foldl_erase, List.mem_filter] at entry
  exact of_decide_eq_true entry.2 member

theorem erase_of_absent {t : Table κ α} {k : κ} (absent : k ∉ t.keys) : t.erase k = t := by
  refine congrArg Table.mk (List.filter_eq_self.mpr fun entry member => ?_)
  rw [decide_eq_true_iff]
  exact fun same => absent (same ▸ List.mem_map_of_mem member)

theorem get?_filter_key (t : Table κ α) (keep : κ → Bool) (k : κ) :
    (t.filter fun j _ => keep j).get? k = if keep k then t.get? k else none := by
  obtain ⟨entries⟩ := t
  simp only [get?, filter]
  induction entries with
  | nil => simp [findEntry]
  | cons entry rest ih =>
    obtain ⟨j, w⟩ := entry
    by_cases same : j = k
    · subst same
      by_cases kept : keep j = true <;> simp_all [findEntry]
    · by_cases kept : keep j = true <;> simp_all [findEntry]

end

section

variable [LT κ]

def Ordered (t : Table κ α) : Prop := t.keys.Pairwise (· < ·)

theorem ordered_empty : (∅ : Table κ α).Ordered := List.Pairwise.nil

theorem Ordered.filter {t : Table κ α} (ordered : t.Ordered) (keep : κ → α → Bool) :
    (t.filter keep).Ordered :=
  List.Pairwise.sublist (List.Sublist.map _ List.filter_sublist) ordered

variable [DecidableEq κ]

theorem Ordered.erase {t : Table κ α} (ordered : t.Ordered) (k : κ) : (t.erase k).Ordered :=
  List.Pairwise.sublist (List.Sublist.map _ List.filter_sublist) ordered

theorem Ordered.modify {t : Table κ α} (ordered : t.Ordered) (k : κ) (f : α → α) :
    (t.modify k f).Ordered := by
  simpa only [Ordered, keys_modify] using ordered

end

section

variable [LT κ] [Std.Irrefl (· < · : κ → κ → Prop)]

theorem Ordered.nodup {t : Table κ α} (ordered : t.Ordered) : t.keys.Nodup := by
  apply List.Pairwise.imp _ ordered
  intro a b less same
  exact Std.Irrefl.irrefl b (same ▸ less)

variable [DecidableEq κ]

theorem Ordered.get?_eq_some_iff {t : Table κ α} (ordered : t.Ordered) (k : κ) (v : α) :
    t.get? k = some v ↔ (k, v) ∈ t.entries := by
  refine ⟨mem_entries_of_get?, ?_⟩
  have nodup := ordered.nodup
  obtain ⟨entries⟩ := t
  simp only [get?, keys] at nodup ⊢
  clear ordered
  induction entries with
  | nil => simp
  | cons entry rest ih =>
    obtain ⟨j, w⟩ := entry
    obtain ⟨fresh, nodup⟩ := List.nodup_cons.mp nodup
    intro member
    rcases List.mem_cons.mp member with same | later
    · cases same
      simp [findEntry]
    · have other : j ≠ k := by
        intro same
        exact fresh (List.mem_map.mpr ⟨(k, v), later, same.symm⟩)
      simpa [findEntry, other] using ih nodup later

theorem Ordered.get?_filter {t : Table κ α} (ordered : t.Ordered) (keep : κ → α → Bool) (k : κ)
    (v : α) : (t.filter keep).get? k = some v ↔ t.get? k = some v ∧ keep k v = true := by
  rw [(ordered.filter keep).get?_eq_some_iff, ordered.get?_eq_some_iff]
  simp [Table.filter]

theorem Ordered.flatten_modify {β : Type} {t : Table κ (List β)} (ordered : t.Ordered) {k : κ}
    {x : List β} (found : t.get? k = some x) (f : List β → List β) {gained lost : List β}
    (change : (f x ++ lost).Perm (x ++ gained)) :
    ((t.modify k f).values.flatten ++ lost).Perm (t.values.flatten ++ gained) := by
  have nodup := ordered.nodup
  obtain ⟨entries⟩ := t
  simp only [get?, keys, values, Table.modify] at found nodup ⊢
  clear ordered
  induction entries with
  | nil => simp [findEntry] at found
  | cons entry rest ih =>
    obtain ⟨j, w⟩ := entry
    obtain ⟨fresh, nodup⟩ := List.nodup_cons.mp nodup
    by_cases same : j = k
    · subst same
      have here : w = x := by simpa [findEntry] using found
      have there : rest.map (fun e => if e.1 = j then (e.1, f e.2) else (e.1, e.2)) = rest := by
        refine (List.map_congr_left ?_).trans (List.map_id _)
        rintro ⟨i, v⟩ member
        have other : i ≠ j := fun same => fresh (List.mem_map.mpr ⟨(i, v), member, same⟩)
        simp [other]
      simp only [List.map_cons, if_true, there, here, List.flatten_cons]
      calc f x ++ (rest.map (·.2)).flatten ++ lost
          |>.Perm (f x ++ lost ++ (rest.map (·.2)).flatten) := by
            simp only [List.append_assoc]
            exact List.Perm.append_left _ List.perm_append_comm
        _ |>.Perm (x ++ gained ++ (rest.map (·.2)).flatten) := change.append_right _
        _ |>.Perm (x ++ (rest.map (·.2)).flatten ++ gained) := by
            simp only [List.append_assoc]
            exact List.Perm.append_left _ List.perm_append_comm
    · have step := ih (by simpa [findEntry, same] using found) nodup
      simp only [List.map_cons, same, if_false, List.flatten_cons, List.append_assoc]
      exact List.Perm.append_left _ (by simpa only [List.append_assoc] using step)

end

section

variable [DecidableEq κ] [LT κ] [DecidableLT κ]

theorem mem_keys_insertEntry (k j : κ) (v : α) (entries : List (κ × α)) :
    j ∈ (insertEntry k v entries).map (·.1) ↔ j = k ∨ j ∈ entries.map (·.1) := by
  induction entries with
  | nil => simp [insertEntry]
  | cons entry rest ih =>
    obtain ⟨i, w⟩ := entry
    simp only [insertEntry]
    split
    · rename_i same
      simp [same]
    · split
      · simp
      · simp only [List.map_cons, List.mem_cons, ih]
        exact or_left_comm

theorem contains_insert (t : Table κ α) (k j : κ) (v : α) :
    (t.insert k v).contains j = (decide (j = k) || t.contains j) := by
  simp only [contains, get?_insert]
  by_cases same : j = k <;> simp [same]

theorem mem_values_insert {t : Table κ α} {k : κ} {v w : α} (member : w ∈ (t.insert k v).values) :
    w = v ∨ w ∈ t.values := by
  obtain ⟨entries⟩ := t
  simp only [values, insert] at member ⊢
  induction entries with
  | nil => simpa [insertEntry] using member
  | cons entry rest ih =>
    simp only [insertEntry] at member
    split at member
    · simp only [List.map_cons, List.mem_cons] at member ⊢
      exact member.imp_right .inr
    · split at member
      · simpa using member
      · simp only [List.map_cons, List.mem_cons] at member ⊢
        rcases member with first | later
        · exact .inr (.inl first)
        · exact (ih later).imp_right .inr

theorem map_get?_insert {β : Type} (t : Table κ α) (k j : κ) (v : α) (f : α → β) :
    ((t.insert k v).get? j).map f = if k = j then some (f v) else (t.get? j).map f := by
  rw [get?_insert]
  by_cases same : k = j <;> simp [same, eq_comm]

theorem Ordered.insert [Trans (· < · : κ → κ → Prop) (· < · : κ → κ → Prop) (· < · : κ → κ → Prop)]
    [Std.Trichotomous (· < · : κ → κ → Prop)] {t : Table κ α} (ordered : t.Ordered) (k : κ) (v : α) :
    (t.insert k v).Ordered := by
  obtain ⟨entries⟩ := t
  simp only [Ordered, keys, Table.insert] at ordered ⊢
  induction entries with
  | nil => simp [insertEntry]
  | cons entry rest ih =>
    obtain ⟨j, w⟩ := entry
    obtain ⟨first, later⟩ := List.pairwise_cons.mp ordered
    simp only [insertEntry]
    split
    · rename_i same
      subst same
      exact List.pairwise_cons.mpr ⟨first, later⟩
    · rename_i other
      split
      · rename_i less
        refine List.pairwise_cons.mpr ⟨?_, ordered⟩
        intro i member
        rcases List.mem_cons.mp member with same | member
        · exact same ▸ less
        · exact Std.lt_trans less (first i member)
      · rename_i notLess
        refine List.pairwise_cons.mpr ⟨?_, ih later⟩
        intro i member
        rcases (mem_keys_insertEntry k i v rest).mp member with same | member
        · subst same
          exact Decidable.byContradiction fun notGreater =>
            other (Std.Trichotomous.trichotomous j i notGreater notLess)
        · exact first i member

theorem flatten_insert_nil {β : Type} {t : Table κ (List β)} {k : κ} (fresh : t.get? k = none) :
    (t.insert k []).values.flatten = t.values.flatten := by
  obtain ⟨entries⟩ := t
  simp only [get?, values, Table.insert] at fresh ⊢
  induction entries with
  | nil => rfl
  | cons entry rest ih =>
    obtain ⟨j, w⟩ := entry
    by_cases same : j = k
    · simp [findEntry, same] at fresh
    · simp only [insertEntry, same, if_false]
      split
      · simp
      · simp only [List.map_cons, List.flatten_cons, ih (by simpa [findEntry, same] using fresh)]

end

/-! Tables made of a list of pairs. -/

section

variable [DecidableEq κ] [LT κ] [DecidableLT κ]

theorem mem_insertEntry {k : κ} {v : α} {entries : List (κ × α)} {e : κ × α}
    (member : e ∈ insertEntry k v entries) : e = (k, v) ∨ e ∈ entries := by
  induction entries with
  | nil => exact .inl (List.mem_singleton.mp member)
  | cons entry rest ih =>
    obtain ⟨j, w⟩ := entry
    unfold insertEntry at member
    split at member
    · exact (List.mem_cons.mp member).imp_right (List.mem_cons_of_mem _)
    · split at member
      · exact List.mem_cons.mp member
      · rcases List.mem_cons.mp member with first | later
        · exact .inr (List.mem_cons.mpr (.inl first))
        · exact (ih later).imp_right (List.mem_cons_of_mem _)

theorem length_flatMap_insertEntry {β : Type} (part : κ × α → List β) (k : κ) (v : α)
    (entries : List (κ × α)) : ((insertEntry k v entries).flatMap part).length ≤
      (part (k, v)).length + (entries.flatMap part).length := by
  induction entries with
  | nil => simp [insertEntry]
  | cons entry rest ih =>
    obtain ⟨j, w⟩ := entry
    unfold insertEntry
    split
    · simp only [List.flatMap_cons, List.length_append]
      omega
    · split <;> simp only [List.flatMap_cons, List.length_append] <;> omega

theorem insertEntry_last {k : κ} {v : α} {entries : List (κ × α)} [Std.Asymm (· < · : κ → κ → Prop)]
    (greatest : ∀ e ∈ entries, e.1 < k) : insertEntry k v entries = entries ++ [(k, v)] := by
  induction entries with
  | nil => rfl
  | cons entry rest ih =>
    obtain ⟨less, later⟩ := List.forall_mem_cons.mp greatest
    have other : entry.1 ≠ k := by
      intro same
      rw [same] at less
      exact Std.Asymm.asymm k k less less
    have notLess : ¬ k < entry.1 := fun more => Std.Asymm.asymm _ _ less more
    rw [insertEntry, if_neg other, if_neg notLess, ih later]
    rfl

theorem erase_insert (t : Table κ α) (k : κ) (v : α) : (t.insert k v).erase k = t.erase k := by
  obtain ⟨entries⟩ := t
  simp only [insert, erase, mk.injEq]
  induction entries with
  | nil => simp [insertEntry]
  | cons entry rest ih =>
    obtain ⟨j, w⟩ := entry
    by_cases same : j = k
    · simp [insertEntry, same]
    · by_cases less : k < j
      · simp [insertEntry, same, less]
      · simpa [insertEntry, same, less] using ih

theorem entries_insert_last [Std.Asymm (· < · : κ → κ → Prop)] {t : Table κ α} {k : κ} {v : α}
    (greatest : ∀ j ∈ t.keys, j < k) : (t.insert k v).entries = t.entries ++ [(k, v)] :=
  insertEntry_last fun _ member => greatest _ (List.mem_map_of_mem member)

theorem ofList_concat (pairs : List (κ × α)) (pair : κ × α) :
    ofList (pairs ++ [pair]) = (ofList pairs).insert pair.1 pair.2 := by
  simp only [ofList, List.foldl_append, List.foldl_cons, List.foldl_nil]

theorem mem_ofList {pairs : List (κ × α)} {e : κ × α} (member : e ∈ (ofList pairs).entries) :
    e ∈ pairs := by
  induction pairs using List.reverseRecOn with
  | nil => exact member
  | append_singleton pairs pair ih =>
    rw [ofList_concat] at member
    rcases mem_insertEntry member with new | old
    · exact List.mem_append_right _ (List.mem_singleton.mpr new)
    · exact List.mem_append_left _ (ih old)

theorem length_flatMap_ofList {β : Type} (part : κ × α → List β) (pairs : List (κ × α)) :
    ((ofList pairs).entries.flatMap part).length ≤ (pairs.flatMap part).length := by
  induction pairs using List.reverseRecOn with
  | nil => exact Nat.le_refl 0
  | append_singleton pairs pair ih =>
    obtain ⟨k, v⟩ := pair
    have more := length_flatMap_insertEntry part k v (ofList pairs).entries
    rw [ofList_concat, List.flatMap_append, List.length_append]
    simp only [insert, List.flatMap_singleton]
    omega

theorem get?_ofList (pairs : List (κ × α)) (k : κ) :
    (ofList pairs).get? k = (pairs.reverse.find? (·.1 = k)).map (·.2) := by
  induction pairs using List.reverseRecOn with
  | nil => rfl
  | append_singleton pairs pair ih =>
    rw [ofList_concat, get?_insert, List.reverse_append, List.reverse_singleton, List.singleton_append,
      List.find?_cons]
    by_cases same : pair.1 = k
    · simp [same]
    · simp [same, Ne.symm same, ih]

theorem get?_ofList_eq_some {pairs : List (κ × α)} (distinct : (pairs.map (·.1)).Nodup) {k : κ} {v : α} :
    (ofList pairs).get? k = some v ↔ (k, v) ∈ pairs := by
  rw [get?_ofList, Option.map_eq_some_iff]
  constructor
  · rintro ⟨pair, found, rfl⟩
    have key : pair.1 = k := by simpa using List.find?_some found
    exact key ▸ List.mem_reverse.mp (List.mem_of_find?_eq_some found)
  · intro member
    have reversed : (pairs.reverse.map (·.1)).Nodup := by
      rw [List.map_reverse]
      exact List.nodup_reverse.mpr distinct
    exact ⟨(k, v), find?_of_distinct reversed (List.mem_reverse.mpr member), rfl⟩

theorem ofList_ordered [Trans (· < · : κ → κ → Prop) (· < · : κ → κ → Prop) (· < · : κ → κ → Prop)]
    [Std.Trichotomous (· < · : κ → κ → Prop)] (pairs : List (κ × α)) : (ofList pairs).Ordered := by
  induction pairs using List.reverseRecOn with
  | nil => exact ordered_empty
  | append_singleton pairs pair ih => exact ofList_concat pairs pair ▸ ih.insert pair.1 pair.2

theorem mem_values_ofList_cons [Trans (· < · : κ → κ → Prop) (· < · : κ → κ → Prop) (· < · : κ → κ → Prop)]
    [Std.Trichotomous (· < · : κ → κ → Prop)] [Std.Irrefl (· < · : κ → κ → Prop)] (pair : κ × α)
    (rest : List (κ × α)) (v : α) : v ∈ (ofList (pair :: rest)).values ↔
      (v = pair.2 ∧ pair.1 ∉ rest.map (·.1)) ∨ v ∈ (ofList rest).values := by
  have found : ∀ (pairs : List (κ × α)), v ∈ (ofList pairs).values ↔
      ∃ k, (pairs.reverse.find? (·.1 = k)).map (·.2) = some v := by
    intro pairs
    simp only [values, List.mem_map, Prod.exists, exists_eq_right, ← get?_ofList,
      (ofList_ordered pairs).get?_eq_some_iff]
  have again : ∀ k, rest.reverse.find? (·.1 = k) = none ↔ k ∉ rest.map (·.1) := by
    intro k
    simp only [List.find?_eq_none, List.mem_reverse, decide_eq_true_eq, List.mem_map, not_exists, not_and]
  simp only [found, List.reverse_cons, List.find?_append, List.find?_singleton]
  constructor
  · rintro ⟨k, is⟩
    cases later : rest.reverse.find? (·.1 = k) with
    | some entry => exact .inr ⟨k, by simpa [later] using is⟩
    | none =>
      by_cases same : pair.1 = k
      · simp only [later, same, decide_true, if_true, Option.none_or, Option.map_some, Option.some.injEq] at is
        exact .inl ⟨is.symm, same ▸ (again k).mp later⟩
      · simp [later, same] at is
  · rintro (⟨rfl, once⟩ | ⟨k, is⟩)
    · exact ⟨pair.1, by simp [(again pair.1).mpr once]⟩
    · obtain ⟨entry, later, rfl⟩ := Option.map_eq_some_iff.mp is
      exact ⟨k, by simp [later]⟩

theorem Ordered.ofList_entries [Std.Asymm (· < · : κ → κ → Prop)] {t : Table κ α} (ordered : t.Ordered) :
    ofList t.entries = t := by
  obtain ⟨entries⟩ := t
  simp only [Ordered, keys] at ordered
  induction entries using List.reverseRecOn with
  | nil => rfl
  | append_singleton entries entry ih =>
    rw [List.map_append, List.pairwise_append] at ordered
    obtain ⟨early, _, last⟩ := ordered
    have greatest : ∀ e ∈ entries, e.1 < entry.1 := by
      intro e member
      exact last e.1 (List.mem_map.mpr ⟨e, member, rfl⟩) entry.1 (by simp)
    rw [ofList_concat, ih early]
    exact congrArg Table.mk (insertEntry_last greatest)

end

end LoadableSched.Table
