import LoadableSched.Proofs.Recency
import Mathlib.Data.Finmap

/-!
A hash store is a finite map with a limit on its keys: calls of it are answered as the finite map answers
them, on bytes and through the typed view.
-/

namespace LoadableSched

namespace Store

variable {σ τ κ ν : Type}

abbrev Contents (κ ν : Type) := Finmap fun _ : κ => ν

namespace Contents

variable [DecidableEq κ]

/-- A key and a value that do not belong are refused, and so is a new key when there are as many as there
is room for. -/
def put (accepts : κ → ν → Bool) (room : Nat) (c : Contents κ ν) (key : κ) (value : ν) :
    Except Errno (Contents κ ν) :=
  if !accepts key value then .error .invalid
  else if key ∉ c ∧ room ≤ c.keys.card then .error .tooBig
  else .ok (c.insert key value)

def perform (accepts : κ → ν → Bool) (room : Nat) (c : Contents κ ν) :
    Operation κ ν → Answer ν × Contents κ ν
  | .put key value => settlePut c (c.put accepts room key value)
  | .get key => (.get (c.lookup key), c)
  | .delete key => (.delete (decide (key ∈ c)), c.erase key)

def run (accepts : κ → ν → Bool) (room : Nat) (c : Contents κ ν) :
    List (Operation κ ν) → List (Operation κ ν × Answer ν) × Contents κ ν :=
  runBy (perform accepts room) c

end Contents

def Operation.settled [DecidableEq κ] (key : κ) (found : Option ν) : Operation κ ν × Answer ν → Option ν
  | (.put k value, .put none) => if k = key then some value else found
  | (.delete k, _) => if k = key then none else found
  | _ => found

def latest [DecidableEq κ] (key : κ) (history : List (Operation κ ν × Answer ν)) : Option ν :=
  history.foldl (Operation.settled key) none

theorem runBy_keeps (Keeps : σ → Prop) {step : σ → Operation κ ν → Answer ν × σ}
    (kept : ∀ s op, Keeps s → Keeps (step s op).2) {s : σ} (start : Keeps s) (ops : List (Operation κ ν)) :
    Keeps (runBy step s ops).2 := by
  induction ops generalizing s with
  | nil => exact start
  | cons op rest ih => exact ih (kept s op start)

theorem runBy_alike {step : σ → Operation κ ν → Answer ν × σ} {step' : τ → Operation κ ν → Answer ν × τ}
    {Alike : σ → τ → Prop}
    (kept : ∀ s t op, Alike s t → (step s op).1 = (step' t op).1 ∧ Alike (step s op).2 (step' t op).2)
    {s : σ} {t : τ} (start : Alike s t) (ops : List (Operation κ ν)) :
    (runBy step s ops).1 = (runBy step' t ops).1 ∧ Alike (runBy step s ops).2 (runBy step' t ops).2 := by
  induction ops generalizing s t with
  | nil => exact ⟨rfl, start⟩
  | cons op rest ih =>
    obtain ⟨answer, alike⟩ := kept s t op start
    obtain ⟨later, last⟩ := ih alike
    refine ⟨?_, last⟩
    simp only [runBy, answer, later]

namespace Contents

variable [DecidableEq κ] {accepts : κ → ν → Bool} {room : Nat} {c : Contents κ ν} {key : κ} {value : ν}

theorem perform_lookup (c : Contents κ ν) (op : Operation κ ν) (key : κ) :
    (c.perform accepts room op).2.lookup key =
      Operation.settled key (c.lookup key) (op, (c.perform accepts room op).1) := by
  cases op with
  | get k => rfl
  | delete k =>
    by_cases same : k = key
    · subst same
      simp [perform, Operation.settled]
    · simp [perform, Operation.settled, same, Finmap.lookup_erase_ne (Ne.symm same)]
  | put k value =>
    simp only [perform, put]
    split
    · rfl
    · split
      · rfl
      · by_cases same : k = key
        · subst same
          simp [settlePut, Operation.settled]
        · simp [settlePut, Operation.settled, same, Finmap.lookup_insert_of_ne c (Ne.symm same)]

theorem run_lookup (c : Contents κ ν) (ops : List (Operation κ ν)) (key : κ) :
    (c.run accepts room ops).2.lookup key =
      (c.run accepts room ops).1.foldl (Operation.settled key) (c.lookup key) := by
  induction ops generalizing c with
  | nil => rfl
  | cons op rest ih =>
    refine (ih _).trans ?_
    rw [perform_lookup]
    rfl

theorem run_latest (accepts : κ → ν → Bool) (room : Nat) (ops : List (Operation κ ν)) (key : κ) :
    (run accepts room ∅ ops).2.lookup key = latest key (run accepts room ∅ ops).1 :=
  run_lookup ∅ ops key

theorem keys_insert (c : Contents κ ν) (key : κ) (value : ν) :
    (c.insert key value).keys = insert key c.keys := by
  ext other
  simp [Finmap.mem_keys]

theorem perform_card (within : c.keys.card ≤ room) (op : Operation κ ν) :
    (c.perform accepts room op).2.keys.card ≤ room := by
  cases op with
  | get k => exact within
  | delete k =>
    refine Nat.le_trans ?_ within
    rw [perform, Finmap.keys_erase]
    exact Finset.card_erase_le
  | put k value =>
    simp only [perform, put]
    split
    · exact within
    · split
      · exact within
      · next free =>
        simp only [settlePut, keys_insert]
        by_cases member : k ∈ c
        · rwa [Finset.insert_eq_of_mem (Finmap.mem_keys.mpr member)]
        · have less : c.keys.card < room := Nat.lt_of_not_le fun full => free ⟨member, full⟩
          exact Nat.le_trans (Finset.card_insert_le _ _) less

theorem run_card (ops : List (Operation κ ν)) :
    (run accepts room (∅ : Contents κ ν) ops).2.keys.card ≤ room := by
  have within : (∅ : Contents κ ν).keys.card ≤ room := Nat.zero_le room
  exact runBy_keeps (fun c : Contents κ ν => c.keys.card ≤ room) (fun _ op within => perform_card within op)
    within ops

end Contents

section Lookups

variable {s : Store} {key value other : Bytes}

theorem lookup_without (s : Store) (key other : Bytes) :
    (s.without key).lookup other = if other = key then none else s.peek? other := by
  unfold without peek?
  induction s.entries with
  | nil => simp
  | cons entry rest ih =>
    obtain ⟨k, v⟩ := entry
    by_cases same : other = k
    · subst same
      by_cases gone : other = key
      · simpa [gone] using ih
      · simp [gone]
    · rw [List.lookup_cons, beq_false_of_ne same, ← ih]
      by_cases gone : k = key
      · simp [gone]
      · rw [List.filter_cons_of_pos (by simpa using gone), List.lookup_cons, beq_false_of_ne same]

theorem peek_overwrite (s : Store) (key value other : Bytes) :
    (s.overwrite key value).peek? other =
      if other = key then (s.peek? key).map (fun _ => value) else s.peek? other := by
  have replaced : (s.overwrite key value).peek? other =
      (s.peek? other).map fun v => if other = key then value else v := by
    unfold overwrite peek?
    induction s.entries with
    | nil => rfl
    | cons entry rest ih =>
      obtain ⟨k, v⟩ := entry
      by_cases same : other = k
      · subst same
        by_cases this : other = key <;> simp [this]
      · rw [List.lookup_cons, beq_false_of_ne same, ← ih]
        rw [List.map_cons]
        dsimp only
        split <;> rw [List.lookup_cons, beq_false_of_ne same]
  rw [replaced]
  split
  · next same => rw [same]
  · exact Option.map_id'

theorem overwrite_keys (s : Store) (key value : Bytes) :
    (s.overwrite key value).entries.map (·.1) = s.entries.map (·.1) := by
  rw [overwrite, List.map_map]
  refine List.map_congr_left fun entry _ => ?_
  simp only [Function.comp]
  split <;> rfl

theorem put_plain (plain : s.eviction = .none) : s.put key value =
    if !s.layout.accepts key value then .error .invalid
    else if (s.peek? key).isSome then .ok (s.overwrite key value)
    else if s.capacity ≤ s.size then .error .tooBig
    else .ok { s with entries := s.entries ++ [(key, value)] } := by
  rw [put, plain]

theorem put_misfit (misfit : s.layout.accepts key value = false) : s.put key value = .error .invalid := by
  rw [put, misfit]
  rfl

theorem put_full (plain : s.eviction = .none) (fits : s.layout.accepts key value = true)
    (new : s.peek? key = none) (full : s.capacity ≤ s.size) : s.put key value = .error .tooBig := by
  rw [put_plain plain, fits, new]
  exact if_pos full

theorem put_free (plain : s.eviction = .none) (fits : s.layout.accepts key value = true)
    (free : (s.peek? key).isSome ∨ s.size < s.capacity) : ∃ s', s.put key value = .ok s' := by
  rw [put_plain plain, fits]
  by_cases present : (s.peek? key).isSome
  · exact ⟨_, if_pos present⟩
  · have room : ¬s.capacity ≤ s.size := Nat.not_le_of_lt (free.resolve_left present)
    exact ⟨_, (if_neg present).trans (if_neg room)⟩

theorem peek_isSome_iff : (s.peek? key).isSome ↔ key ∈ s.entries.map (·.1) := by
  rw [peek?, List.lookup_isSome_iff, List.mem_map]
  exact exists_congr fun entry => and_congr_right fun _ => by rw [beq_iff_eq, eq_comm]

end Lookups

/-- A hash store holds what a finite map holds, each key and each value in its written form. -/
structure Represents [DecidableEq κ] (writeKey : κ → Bytes) (writeValue : ν → Bytes) (l : Layout) (s : Store)
    (c : Contents κ ν) : Prop where
  layout : s.layout = l
  plain : s.eviction = .none
  distinct : (s.entries.map (·.1)).Nodup
  written : ∀ entry ∈ s.entries, ∃ key, writeKey key = entry.1
  found : ∀ key, s.peek? (writeKey key) = (c.lookup key).map writeValue

namespace Represents

variable [DecidableEq κ] {writeKey : κ → Bytes} {writeValue : ν → Bytes} {l : Layout} {s : Store}
  {c : Contents κ ν} {accepts : κ → ν → Bool} {key : κ} {value : ν}

theorem empty : Represents writeKey writeValue l (Store.empty .hash l) ∅ :=
  ⟨rfl, rfl, List.nodup_nil, fun _ member => (List.not_mem_nil member).elim, fun _ => rfl⟩

theorem present_iff (rep : Represents writeKey writeValue l s c) :
    (s.peek? (writeKey key)).isSome ↔ key ∈ c := by
  rw [rep.found, Option.isSome_map, Finmap.lookup_isSome]

theorem size (rep : Represents writeKey writeValue l s c) (apart : Function.Injective writeKey) :
    s.size = c.keys.card := by
  have keys : (s.entries.map (·.1)).toFinset = c.keys.image writeKey := by
    ext bytes
    rw [List.mem_toFinset, Finset.mem_image]
    constructor
    · intro member
      obtain ⟨entry, there, rfl⟩ := List.mem_map.mp member
      obtain ⟨key, same⟩ := rep.written entry there
      rw [← same, ← peek_isSome_iff, rep.present_iff] at member
      exact ⟨key, Finmap.mem_keys.mpr member, same⟩
    · rintro ⟨key, member, rfl⟩
      exact peek_isSome_iff.mp (rep.present_iff.mpr (Finmap.mem_keys.mp member))
  calc s.size = (s.entries.map (·.1)).toFinset.card := by
        rw [List.toFinset_card_of_nodup rep.distinct, List.length_map, Store.size]
    _ = c.keys.card := by rw [keys, Finset.card_image_of_injective _ apart]

theorem get (rep : Represents writeKey writeValue l s c) (key : κ) :
    s.get (writeKey key) = ((c.lookup key).map writeValue, s) := by
  rw [Store.get, rep.found, rep.plain]
  cases c.lookup key <;> rfl

theorem overwrite (rep : Represents writeKey writeValue l s c) (apart : Function.Injective writeKey)
    (member : key ∈ c) (value : ν) :
    Represents writeKey writeValue l (s.overwrite (writeKey key) (writeValue value)) (c.insert key value) where
  layout := rep.layout
  plain := rep.plain
  distinct := by
    rw [overwrite_keys]
    exact rep.distinct
  written entry there := by
    have there : entry.1 ∈ s.entries.map (·.1) := by
      rw [← overwrite_keys s (writeKey key) (writeValue value)]
      exact List.mem_map_of_mem there
    obtain ⟨old, there, same⟩ := List.mem_map.mp there
    exact same ▸ rep.written old there
  found other := by
    obtain ⟨old, held⟩ := Finmap.mem_iff.mp member
    rw [peek_overwrite]
    by_cases same : other = key
    · rw [if_pos (congrArg writeKey same), rep.found, held, same, Finmap.lookup_insert]
      rfl
    · rw [if_neg (apart.ne same), rep.found, Finmap.lookup_insert_of_ne c same]

theorem append (rep : Represents writeKey writeValue l s c) (apart : Function.Injective writeKey)
    (fresh : key ∉ c) (value : ν) :
    Represents writeKey writeValue l
      { s with entries := s.entries ++ [(writeKey key, writeValue value)] } (c.insert key value) where
  layout := rep.layout
  plain := rep.plain
  distinct := by
    have absent : writeKey key ∉ s.entries.map (·.1) := by
      rwa [← peek_isSome_iff, rep.present_iff]
    rw [List.map_append, List.nodup_append_comm]
    exact List.nodup_cons.mpr ⟨absent, rep.distinct⟩
  written entry there := by
    rcases List.mem_append.mp there with old | new
    · exact rep.written entry old
    · exact ⟨key, by rw [List.mem_singleton.mp new]⟩
  found other := by
    rw [peek?, List.lookup_append, ← peek?, rep.found]
    by_cases same : other = key
    · rw [same, Finmap.lookup_eq_none.mpr fresh, Finmap.lookup_insert]
      simp
    · have other : (writeKey other == writeKey key) = false := beq_false_of_ne (apart.ne same)
      rw [Finmap.lookup_insert_of_ne c same, List.lookup_cons, other]
      simp

theorem delete (rep : Represents writeKey writeValue l s c) (apart : Function.Injective writeKey) (key : κ) :
    (s.delete (writeKey key)).1 = decide (key ∈ c) ∧
      Represents writeKey writeValue l (s.delete (writeKey key)).2 (c.erase key) := by
  refine ⟨?_, rep.layout, rep.plain, ?_, fun entry there => ?_, fun other => ?_⟩
  · rw [Bool.eq_iff_iff, decide_eq_true_iff]
    exact rep.present_iff
  · exact rep.distinct.sublist (List.filter_sublist.map _)
  · exact rep.written entry (List.mem_of_mem_filter there)
  · rw [Store.delete, peek?, lookup_without]
    by_cases same : other = key
    · rw [if_pos (congrArg writeKey same), same, Finmap.lookup_erase]
      rfl
    · rw [if_neg (apart.ne same), rep.found, Finmap.lookup_erase_ne same]

/-- The store and the map refuse a put alike, or it leaves them alike. -/
theorem put (rep : Represents writeKey writeValue l s c) (apart : Function.Injective writeKey)
    (accepted : l.accepts (writeKey key) (writeValue value) = accepts key value) :
    (∃ refusal, s.put (writeKey key) (writeValue value) = .error refusal ∧
        c.put accepts l.capacity.toNat key value = .error refusal) ∨
      ∃ s' c', s.put (writeKey key) (writeValue value) = .ok s' ∧
        c.put accepts l.capacity.toNat key value = .ok c' ∧ Represents writeKey writeValue l s' c' := by
  have room : s.capacity = l.capacity.toNat := by rw [capacity, rep.layout]
  have accepted : s.layout.accepts (writeKey key) (writeValue value) = accepts key value := by
    rw [rep.layout, accepted]
  simp only [put_plain rep.plain, Contents.put, accepted, rep.present_iff, room, rep.size apart]
  by_cases fits : accepts key value = true
  · simp only [fits, Bool.not_true, Bool.false_eq_true, if_false]
    by_cases member : key ∈ c
    · exact .inr ⟨_, _, if_pos member, if_neg fun refused => refused.1 member, rep.overwrite apart member value⟩
    · rw [if_neg member]
      by_cases full : l.capacity.toNat ≤ c.keys.card
      · exact .inl ⟨.tooBig, if_pos full, if_pos ⟨member, full⟩⟩
      · exact .inr ⟨_, _, if_neg full, if_neg fun refused => full refused.2, rep.append apart member value⟩
  · exact .inl ⟨.invalid, by simp [fits], by simp [fits]⟩

theorem settle (rep : Represents writeKey writeValue l s c) (apart : Function.Injective writeKey)
    (accepted : l.accepts (writeKey key) (writeValue value) = accepts key value) :
    ((settlePut s (s.put (writeKey key) (writeValue value)) : Answer ν × Store).1 =
        (settlePut c (c.put accepts l.capacity.toNat key value)).1) ∧
      Represents writeKey writeValue l (settlePut s (s.put (writeKey key) (writeValue value)) : Answer ν × Store).2
        (settlePut c (c.put accepts l.capacity.toNat key value) : Answer ν × Contents κ ν).2 := by
  rcases rep.put apart accepted with ⟨refusal, refused, refused'⟩ | ⟨s', c', stored, stored', rep'⟩
  · rw [refused, refused']
    exact ⟨rfl, rep⟩
  · rw [stored, stored']
    exact ⟨rfl, rep'⟩

end Represents

theorem perform_represents {l : Layout} (s : Store) (c : Contents Bytes Bytes) (op : Operation Bytes Bytes)
    (rep : Represents id id l s c) :
    (s.perform op).1 = (c.perform l.accepts l.capacity.toNat op).1 ∧
      Represents id id l (s.perform op).2 (c.perform l.accepts l.capacity.toNat op).2 := by
  have apart : Function.Injective (id : Bytes → Bytes) := fun _ _ same => same
  cases op with
  | get key =>
    have got : s.get key = (c.lookup key, s) := (rep.get key).trans (by rw [Option.map_id, id])
    rw [perform, Contents.perform, got]
    exact ⟨rfl, rep⟩
  | delete key =>
    obtain ⟨present, rep⟩ := rep.delete apart key
    exact ⟨congrArg Answer.delete present, rep⟩
  | put key value => exact rep.settle apart rfl

/-- After a run from an empty store, the finite map that was built up by it. -/
theorem run_represents (l : Layout) (ops : List (Operation Bytes Bytes)) :
    ((empty .hash l).run ops).1 = (Contents.run l.accepts l.capacity.toNat ∅ ops).1 ∧
      Represents id id l ((empty .hash l).run ops).2 (Contents.run l.accepts l.capacity.toNat ∅ ops).2 :=
  runBy_alike perform_represents .empty ops

section Typed

variable [Word κ] [Word ν] [LawfulWord κ] [LawfulWord ν] {l : Layout}

theorem encode_injective {α : Type} [Word α] [LawfulWord α] : Function.Injective (Word.encode : α → Bytes) :=
  fun _ _ same => Word.encode_inj same

theorem accepts_encode (fits : l.fits κ ν = true) (key : κ) (value : ν) :
    l.accepts (Word.encode key) (Word.encode value) = true := by
  simp only [Layout.fits, Bool.and_eq_true, decide_eq_true_iff] at fits
  simp [Layout.accepts, Word.length_encode, fits]

variable [DecidableEq κ]

theorem performTyped_represents (fits : l.fits κ ν = true) (s : Store) (c : Contents κ ν) (op : Operation κ ν)
    (rep : Represents Word.encode Word.encode l s c) :
    (s.performTyped op).1 = (c.perform (fun _ _ => true) l.capacity.toNat op).1 ∧
      Represents Word.encode Word.encode l (s.performTyped op).2
        (c.perform (fun _ _ => true) l.capacity.toNat op).2 := by
  cases op with
  | get key =>
    have got : s.getTyped ν key = (c.lookup key, s) := by
      rw [getTyped, rep.get key]
      cases c.lookup key <;> simp
    rw [performTyped, Contents.perform, got]
    exact ⟨rfl, rep⟩
  | delete key =>
    obtain ⟨present, rep⟩ := rep.delete encode_injective key
    exact ⟨congrArg Answer.delete present, rep⟩
  | put key value => exact rep.settle encode_injective (accepts_encode fits key value)

theorem runTyped_represents (fits : l.fits κ ν = true) (ops : List (Operation κ ν)) :
    ((empty .hash l).runTyped ops).1 = (Contents.run (fun _ _ => true) l.capacity.toNat ∅ ops).1 ∧
      Represents Word.encode Word.encode l ((empty .hash l).runTyped ops).2
        (Contents.run (fun _ _ => true) l.capacity.toNat ∅ ops).2 :=
  runBy_alike (performTyped_represents fits) .empty ops

end Typed

section Widths

variable {s : Store} {l : Layout}

structure Sized (l : Layout) (s : Store) : Prop where
  layout : s.layout = l
  accepted : ∀ entry ∈ s.entries, l.accepts entry.1 entry.2 = true

namespace Sized

variable {key value : Bytes} {s' : Store}

theorem without (sized : s.Sized l) : ∀ entry ∈ s.without key, l.accepts entry.1 entry.2 = true :=
  fun entry there => sized.accepted entry (List.mem_of_mem_filter there)

theorem overwrite (sized : s.Sized l) (accepts : l.accepts key value = true) : (s.overwrite key value).Sized l where
  layout := sized.layout
  accepted entry there := by
    obtain ⟨old, member, rfl⟩ := List.mem_map.mp there
    dsimp only
    split
    · next same => exact same ▸ accepts
    · exact sized.accepted old member

theorem put (sized : s.Sized l) (stored : s.put key value = .ok s') : s'.Sized l := by
  unfold Store.put at stored
  split at stored
  · cases stored
  next accepts =>
  have accepts : l.accepts key value = true := by simpa [sized.layout] using accepts
  split at stored
  · split at stored
    · cases stored
      exact sized.overwrite accepts
    · split at stored
      · cases stored
      · cases stored
        refine ⟨sized.layout, fun entry there => ?_⟩
        rcases List.mem_append.mp there with old | new
        · exact sized.accepted entry old
        · rwa [List.mem_singleton.mp new]
  · cases stored
    refine ⟨sized.layout, fun entry there => ?_⟩
    rcases List.mem_cons.mp (List.mem_of_mem_take there) with rfl | old
    · exact accepts
    · exact sized.without entry old

theorem get (sized : s.Sized l) (key : Bytes) : (s.get key).2.Sized l := by
  unfold Store.get
  split
  · exact sized
  next value found =>
  split
  · exact sized
  · refine ⟨sized.layout, fun entry there => ?_⟩
    rcases List.mem_cons.mp there with rfl | old
    · exact sized.accepted _ (mem_of_peek found)
    · exact sized.without entry old

theorem perform (s : Store) (op : Operation Bytes Bytes) (sized : s.Sized l) : (s.perform op).2.Sized l := by
  cases op with
  | get key => exact sized.get key
  | delete key => exact ⟨sized.layout, sized.without⟩
  | put key value =>
    rw [Store.perform]
    cases stored : s.put key value with
    | error refusal => exact sized
    | ok s' => exact sized.put stored

theorem same_width (sized : s.Sized l) {old : Bytes} (found : s.peek? key = some old)
    (accepts : l.accepts key value = true) : old.length = value.length := by
  have held := sized.accepted _ (mem_of_peek found)
  simp only [Layout.accepts, Bool.and_eq_true, decide_eq_true_iff] at held accepts
  exact held.2.trans accepts.2.symm

end Sized

theorem run_sized (kind : MapKind) (l : Layout) (ops : List (Operation Bytes Bytes)) :
    ((empty kind l).run ops).2.Sized l :=
  runBy_keeps (Sized l) Sized.perform ⟨rfl, fun _ member => (List.not_mem_nil member).elim⟩ ops

theorem getTyped_value [Word κ] [Word ν] (s : Store) (key : κ) :
    (s.getTyped ν key).1 = (s.peek? (Word.encode key)).bind Word.decode? :=
  congrArg (Option.bind · Word.decode?) (get_value s (Word.encode key))

theorem Sized.getTyped_isSome [Word κ] [Word ν] [LawfulWord ν] (sized : s.Sized l) (fits : l.fits κ ν = true)
    (key : κ) : (s.getTyped ν key).1.isSome = (s.peek? (Word.encode key)).isSome := by
  simp only [Layout.fits, Bool.and_eq_true, decide_eq_true_iff] at fits
  rw [getTyped_value]
  cases found : s.peek? (Word.encode key) with
  | none => rfl
  | some bytes =>
    have accepted := sized.accepted _ (mem_of_peek found)
    simp only [Layout.accepts, Bool.and_eq_true, decide_eq_true_iff] at accepted
    have width : bytes.length = (Word.width ν).toNat := by rw [accepted.2, fits.2]
    exact LawfulWord.readable bytes width

end Widths

/-- Calls of a hash store, on bytes or through the typed view, are answered as a finite map with room for so many
keys answers them. -/
theorem hash_store_is_bounded_map :
    (∀ (l : Layout) (ops : List (Operation Bytes Bytes)) (history : List (Operation Bytes Bytes × Answer Bytes))
        (s : Store), (empty .hash l).run ops = (history, s) →
      (∃ c, Contents.run l.accepts l.capacity.toNat ∅ ops = (history, c) ∧ (∀ key, s.peek? key = c.lookup key) ∧
        s.size = c.keys.card) ∧
      s.size ≤ l.capacity.toNat ∧
      ∀ key,
        s.get key = (latest key history, s) ∧
        (s.delete key).1 = (latest key history).isSome ∧
        ∀ value,
          (l.accepts key value = false → s.perform (.put key value) = (.put (some .invalid), s)) ∧
          (l.accepts key value = true → latest key history = none → l.capacity.toNat ≤ s.size →
            s.perform (.put key value) = (.put (some .tooBig), s)) ∧
          (l.accepts key value = true → (latest key history).isSome ∨ s.size < l.capacity.toNat →
            ∃ s', s.put key value = .ok s') ∧
          ∀ old, l.accepts key value = true → latest key history = some old → old.length = value.length) ∧
    ∀ a b : WordKind,
      (∀ x : a.Value, Word.decode? (Word.encode x) = some x) ∧
      (∀ x y : a.Value, Word.encode x = Word.encode y → x = y) ∧
      ∀ l : Layout, l.fits a.Value b.Value = true →
        (∀ (ops : List (Operation a.Value b.Value)) (history : List (Operation a.Value b.Value × Answer b.Value))
            (s : Store), (empty .hash l).runTyped ops = (history, s) →
          (∃ c, Contents.run (fun _ _ => true) l.capacity.toNat ∅ ops = (history, c) ∧ s.size = c.keys.card) ∧
          ∀ key, s.getTyped b.Value key = (latest key history, s)) ∧
        ∀ (kind : MapKind) (ops : List (Operation Bytes Bytes)) (key : a.Value),
          (((empty kind l).run ops).2.getTyped b.Value key).1.isSome =
            (((empty kind l).run ops).2.peek? (Word.encode key)).isSome := by
  refine ⟨fun l ops history s ran => ?_, fun a b => ⟨Word.decode_encode, fun _ _ => Word.encode_inj,
    fun l fits => ⟨fun ops history s ran => ?_, fun kind ops key => (run_sized kind l ops).getTyped_isSome fits key⟩⟩⟩
  · obtain ⟨answers, rep⟩ := run_represents l ops
    have sized := run_sized .hash l ops
    have latest := Contents.run_latest l.accepts l.capacity.toNat ops
    rw [← answers] at latest
    rw [ran] at answers rep sized latest
    have found : ∀ key, s.peek? key = Store.latest key history := fun key =>
      ((rep.found key).trans Option.map_id').trans (latest key)
    have room : s.capacity = l.capacity.toNat := by rw [capacity, rep.layout]
    have size := rep.size fun _ _ same => same
    refine ⟨⟨_, Prod.ext answers.symm rfl, fun key => (rep.found key).trans Option.map_id', size⟩,
      size ▸ Contents.run_card ops, fun key => ⟨?_, ?_, fun value => ?_⟩⟩
    · exact (rep.get key).trans (by rw [latest, Option.map_id, id])
    · exact congrArg Option.isSome (found key)
    · rw [← found, ← room, ← rep.layout]
      refine ⟨fun misfit => ?_, fun fits new full => ?_, put_free rep.plain, fun old fits held =>
        sized.same_width held (rep.layout ▸ fits)⟩
      · rw [perform, put_misfit misfit, settlePut]
      · rw [perform, put_full rep.plain fits new full, settlePut]
  · obtain ⟨answers, rep⟩ := runTyped_represents fits ops
    have latest := Contents.run_latest (fun (_ : a.Value) (_ : b.Value) => true) l.capacity.toNat ops
    rw [← answers] at latest
    rw [ran] at answers rep latest
    refine ⟨⟨_, Prod.ext answers.symm rfl, rep.size encode_injective⟩, fun key => ?_⟩
    rw [getTyped, rep.get key, latest]
    cases Store.latest key history <;> simp

def crowding : List (Operation WordKind.signed32.Value WordKind.unsigned64.Value) :=
  [.put (-1) 7, .put 1 8, .put (-1) 9, .get (-1), .delete (-1), .get (-1), .put 1 8]

/-- The second key is refused until the first is deleted, and the value of the first can be replaced. -/
theorem hash_store_is_bounded_map_full :
    ((empty .hash ⟨4, 8, 1⟩).runTyped crowding).1.map (·.2) =
      [.put none, .put (some .tooBig), .put none, .get (some 9), .delete true, .get none, .put none] := by
  have mapped := (hash_store_is_bounded_map.2 .signed32 .unsigned64).2.2 ⟨4, 8, 1⟩ rfl
  obtain ⟨⟨c, ran, -⟩, -⟩ := mapped.1 crowding _ _ Prod.mk.eta.symm
  refine (congrArg (fun result => result.1.map (·.2)) ran).symm.trans ?_
  decide

end Store

end LoadableSched
