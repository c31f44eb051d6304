/-!
Finite tables ordered by key. A look-up sees exactly the last entry written under its key.
-/

namespace LoadableSched

/-- Entries in ascending order of their keys. -/
structure Table (κ α : Type) where
  entries : List (κ × α)
deriving DecidableEq, Repr

namespace Table

variable {κ α : Type}

def empty : Table κ α := ⟨[]⟩

instance : EmptyCollection (Table κ α) := ⟨empty⟩

instance : Inhabited (Table κ α) := ⟨empty⟩

def size (t : Table κ α) : Nat := t.entries.length

def keys (t : Table κ α) : List κ := t.entries.map (·.1)

def values (t : Table κ α) : List α := t.entries.map (·.2)

section

variable [DecidableEq κ]

def findEntry (k : κ) : List (κ × α) → Option α
  | [] => none
  | (j, v) :: rest => if j = k then some v else findEntry k rest

def get? (t : Table κ α) (k : κ) : Option α := findEntry k t.entries

def contains (t : Table κ α) (k : κ) : Bool := (t.get? k).isSome

def erase (t : Table κ α) (k : κ) : Table κ α := ⟨t.entries.filter (·.1 ≠ k)⟩

def modify (t : Table κ α) (k : κ) (f : α → α) : Table κ α :=
  ⟨t.entries.map fun (j, v) => if j = k then (j, f v) else (j, v)⟩

def filter (t : Table κ α) (keep : κ → α → Bool) : Table κ α :=
  ⟨t.entries.filter fun (j, v) => keep j v⟩

end

section

variable [DecidableEq κ] [LT κ] [DecidableLT κ]

def insertEntry (k : κ) (v : α) : List (κ × α) → List (κ × α)
  | [] => [(k, v)]
  | (j, w) :: rest =>
    if j = k then (k, v) :: rest
    else if k < j then (k, v) :: (j, w) :: rest
    else (j, w) :: insertEntry k v rest

def insert (t : Table κ α) (k : κ) (v : α) : Table κ α := ⟨insertEntry k v t.entries⟩

/-- The table of a list of pairs, of which a later one wins over an earlier one. -/
def ofList (pairs : List (κ × α)) : Table κ α := pairs.foldl (fun t (k, v) => t.insert k v) ∅

end

section

variable [DecidableEq κ]

theorem get?_empty (k : κ) : (∅ : Table κ α).get? k = none := rfl

theorem findEntry_filter_ne (k j : κ) (entries : List (κ × α)) :
    findEntry j (entries.filter (·.1 ≠ k)) = if j = k then none else findEntry j entries := by
  induction entries with
  | nil => simp [findEntry]
  | cons entry rest ih =>
    obtain ⟨i, v⟩ := entry
    rw [List.filter_cons]
    by_cases hi : i = k
    · rw [if_neg (by simp [hi]), ih]
      by_cases hj : j = k
      · simp [hj]
      · have hij : ¬ i = j := fun h => hj (h.symm.trans hi)
        simp [hj, findEntry, hij]
    · rw [if_pos (by simp [hi]), findEntry, findEntry, ih]
      by_cases hij : i = j
      · subst hij
        simp [hi]
      · simp [hij]

theorem get?_erase (t : Table κ α) (k j : κ) :
    (t.erase k).get? j = if j = k then none else t.get? j :=
  findEntry_filter_ne k j t.entries

theorem get?_modify (t : Table κ α) (k j : κ) (f : α → α) :
    (t.modify k f).get? j = if j = k then (t.get? j).map f else t.get? j := by
  obtain ⟨entries⟩ := t
  induction entries with
  | nil => simp [get?, modify, findEntry]
  | cons entry rest ih =>
    obtain ⟨i, v⟩ := entry
    simp only [get?, modify, List.map_cons] at ih ⊢
    by_cases hi : i = k <;> by_cases hij : i = j
    · subst hij; simp [hi, findEntry]
    · have hkj : ¬ k = j := fun h => hij (hi.trans h)
      simp only [hi, if_true, findEntry, hkj, if_false, ih]
    · subst hij; simp [hi, findEntry]
    · simp only [hi, if_false, findEntry, hij, ih]

variable [LT κ] [DecidableLT κ]

theorem findEntry_insertEntry (k j : κ) (v : α) (entries : List (κ × α)) :
    findEntry j (insertEntry k v entries) = if j = k then some v else findEntry j entries := by
  induction entries with
  | nil =>
    by_cases h : j = k
    · simp [insertEntry, findEntry, h]
    · simp [insertEntry, findEntry, h, Ne.symm h]
  | cons entry rest ih =>
    obtain ⟨i, w⟩ := entry
    by_cases hi : i = k
    · subst hi
      by_cases hj : j = i
      · simp [insertEntry, findEntry, hj]
      · simp [insertEntry, findEntry, hj, Ne.symm hj]
    · by_cases hlt : k < i
      · by_cases hj : j = k
        · simp [insertEntry, findEntry, hi, hlt, hj]
        · simp [insertEntry, findEntry, hi, hlt, hj, Ne.symm hj]
      · by_cases hij : i = j
        · subst hij
          simp [insertEntry, findEntry, hi, hlt]
        · simp [insertEntry, findEntry, hi, hlt, hij, ih]

theorem get?_insert (t : Table κ α) (k j : κ) (v : α) :
    (t.insert k v).get? j = if j = k then some v else t.get? j :=
  findEntry_insertEntry k j v t.entries

end

end Table

end LoadableSched
