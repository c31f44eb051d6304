import Mathlib.Data.List.Nodup
import Mathlib.Data.List.Perm.Subperm
import Mathlib.Data.Nat.Bitwise
import Mathlib.Data.Nat.Find
import LoadableSched.Class.Requests
import LoadableSched.Proofs.Callback

/-!
The numbers of the shared queues. A policy's own lie below `2 ^ 63`, and the search for the least free one may
start where it ended last, for no number below that is free until all queues of the policy are destroyed.
-/

namespace LoadableSched

namespace Queues

variable {q r s : Queues}

structure SameNames (q r : Queues) : Prop where
  numbers : q.SameNumbers r
  start : r.nextFree = q.nextFree

namespace SameNames

theorem refl (q : Queues) : q.SameNames q := ⟨.refl q, rfl⟩

theorem trans (first : q.SameNames r) (later : r.SameNames s) : q.SameNames s where
  numbers := first.numbers.trans later.numbers
  start := later.start.trans first.start

theorem push {queue : QueueId} {cpu : CpuId} {pid : Pid} (pushed : q.push queue cpu pid = .ok r) :
    q.SameNames r where
  numbers := push_sameNumbers pushed
  start := by
    unfold Queues.push at pushed
    split at pushed <;> split at pushed <;> cases pushed <;> rfl

theorem pop {queue : QueueId} {next : Option Pid} (popped : q.pop queue = .ok (next, r)) :
    q.SameNames r where
  numbers := pop_sameNumbers popped
  start := by
    unfold Queues.pop at popped
    split at popped <;> cases popped
    rfl

theorem moveToLocal {queue : QueueId} {cpu : CpuId} {moved : Bool}
    (done : q.moveToLocal queue cpu = .ok (moved, r)) : q.SameNames r where
  numbers := moveToLocal_sameNumbers done
  start := by
    unfold Queues.moveToLocal at done
    split at done
    · cases done
    · split at done <;> rename_i popped <;> cases done
      · exact (pop popped).start
      · exact (pop popped).start

theorem remove (q : Queues) (pid : Pid) : q.SameNames (q.remove pid).2 where
  numbers := remove_sameNumbers pid
  start := by
    unfold Queues.remove
    split
    · rfl
    · split <;> rfl

theorem selectCpu (q : Queues) (previous : CpuId) : q.SameNames (q.selectCpu previous).2 := by
  obtain ⟨idle, same⟩ := q.selectCpu_eq previous
  rw [same]
  exact ⟨fun _ => rfl, rfl⟩

end SameNames

/-- Beside the global queue there are only queues under numbers of a policy, and no number is free below the
one where the search for a free one starts. -/
structure Named (q : Queues) : Prop where
  global : q.shared.contains globalQueue = true
  low : ∀ n, q.shared.contains n = true → n = globalQueue ∨ n.toNat < 2 ^ 63
  dense : ∀ n, n < q.nextFree → q.shared.contains n = true

def Spare (q : Queues) : Prop := ∃ n : QueueId, n.toNat < 2 ^ 63 ∧ q.shared.contains n = false

theorem Named.of_names (named : q.Named) (same : q.SameNames r) : r.Named where
  global := (same.numbers globalQueue).trans named.global
  low n present := named.low n ((same.numbers n).symm.trans present)
  dense n below := (same.numbers n).trans (named.dense n (same.start ▸ below))

theorem isBuiltin_of_low {n : QueueId} (low : n.toNat < 2 ^ 63) : isBuiltin n = false := by
  have bit : n.toNat.testBit 63 = false := Nat.testBit_lt_two_pow low
  have none : n &&& 0x8000000000000000 = 0 := by
    apply UInt64.toNat_inj.mp
    rw [UInt64.toNat_and]
    have top : (0x8000000000000000 : UInt64).toNat = 2 ^ 63 := rfl
    rw [top, Nat.and_two_pow, bit]
    rfl
  simp [isBuiltin, none]

theorem Named.only_global (named : q.Named) (only : q.OnlyBuiltin) (n : QueueId) :
    q.shared.contains n = true ↔ n = globalQueue := by
  constructor
  · intro present
    rcases named.low n present with global | low
    · exact global
    · have builtin := only n present
      rw [isBuiltin_of_low low] at builtin
      cases builtin
  · rintro rfl
    exact named.global

theorem new_named (cpus : Nat) : (new cpus).Named where
  global := rfl
  low n present := by
    simp only [new, Table.ofList, List.foldl_cons, List.foldl_nil, Table.contains_insert] at present
    exact .inl (by simpa [Table.contains_eq, Table.get?_empty] using present)
  dense n below := absurd below (Nat.not_lt_zero n.toNat)

theorem Named.destroyed (named : q.Named) : q.destroyPolicyQueues.2.Named where
  global := by
    have own : isBuiltin globalQueue = true := rfl
    have kept := Table.get?_filter_key q.shared isBuiltin globalQueue
    rw [if_pos own] at kept
    exact (congrArg Option.isSome kept).trans named.global
  low n present := by
    have builtin := destroyPolicyQueues_builtin present
    have kept := Table.get?_filter_key q.shared isBuiltin n
    rw [if_pos builtin] at kept
    exact named.low n ((congrArg Option.isSome kept).symm.trans present)
  dense n below := absurd below (Nat.not_lt_zero n.toNat)

/-! The search for a free number. -/

theorem firstFree_eq {fuel k : Nat} {start : QueueId} (enough : k ≤ fuel)
    (taken : ∀ j < k, q.shared.contains (start + UInt64.ofNat j) = true)
    (free : q.shared.contains (start + UInt64.ofNat k) = false) :
    q.firstFree fuel start = start + UInt64.ofNat k := by
  induction k generalizing fuel start with
  | zero =>
    have here : start + UInt64.ofNat 0 = start := by simp
    rw [here] at free ⊢
    cases fuel with
    | zero => rfl
    | succ fuel => simp [firstFree, free]
  | succ k ih =>
    obtain ⟨fuel, rfl⟩ := Nat.exists_eq_add_one_of_ne_zero (Nat.ne_of_gt (Nat.lt_of_lt_of_le k.succ_pos enough))
    have here : q.shared.contains start = true := by simpa using taken 0 k.succ_pos
    have next : ∀ j : Nat, start + 1 + UInt64.ofNat j = start + UInt64.ofNat (j + 1) := by
      intro j
      rw [UInt64.ofNat_add, UInt64.add_assoc, UInt64.add_comm 1]
      rfl
    simp only [firstFree, here, if_true]
    rw [← next k] at free ⊢
    exact ih (Nat.le_of_succ_le_succ enough) (fun j below => next j ▸ taken (j + 1) (Nat.succ_lt_succ below)) free

theorem size_of_taken {k : Nat} (word : k ≤ 2 ^ 64) (taken : ∀ j < k, q.shared.contains (UInt64.ofNat j) = true) :
    k ≤ q.shared.size := by
  have distinct : ((List.range k).map UInt64.ofNat).Nodup := by
    apply List.Nodup.map_on _ List.nodup_range
    intro i first j second same
    have word (m : Nat) (member : m ∈ List.range k) : (UInt64.ofNat m).toNat = m :=
      UInt64.toNat_ofNat_of_lt' (Nat.lt_of_lt_of_le (List.mem_range.mp member) word)
    rw [← word i first, ← word j second, same]
  have inside : (List.range k).map UInt64.ofNat ⊆ q.shared.keys := by
    intro n member
    obtain ⟨j, below, rfl⟩ := List.mem_map.mp member
    exact (Table.contains_iff_mem_keys _ _).mp (taken j (List.mem_range.mp below))
  have counted := (distinct.subperm inside).length_le
  simpa [Table.keys, Table.size] using counted

theorem spare_of_size (few : q.shared.size < 2 ^ 63) : q.Spare := by
  by_contra full
  have taken : ∀ j < 2 ^ 63, q.shared.contains (UInt64.ofNat j) = true := by
    intro j below
    have word : (UInt64.ofNat j).toNat = j := UInt64.toNat_ofNat_of_lt' (Nat.lt_trans below (by decide))
    by_contra free
    exact full ⟨UInt64.ofNat j, word.symm ▸ below, Bool.eq_false_iff.mpr free⟩
  exact absurd (size_of_taken (by decide) taken) (Nat.not_le.mpr few)

theorem Spare.least (spare : q.Spare) :
    ∃ least < 2 ^ 63, q.shared.contains (UInt64.ofNat least) = false ∧
      ∀ m < least, q.shared.contains (UInt64.ofNat m) = true := by
  have some : ∃ m < 2 ^ 63, q.shared.contains (UInt64.ofNat m) = false := by
    obtain ⟨n, low, free⟩ := spare
    exact ⟨n.toNat, low, by rwa [UInt64.ofNat_toNat]⟩
  obtain ⟨low, free⟩ := Nat.find_spec some
  refine ⟨Nat.find some, low, free, fun m below => ?_⟩
  have other := Nat.find_min some below
  rw [not_and, Bool.not_eq_false] at other
  exact other (Nat.lt_trans below low)

/-- No number below the start of the search is free, so that it does not start beyond the least free one; and
there are enough queues to come as far as that. -/
theorem Named.search_eq (named : q.Named) {least : Nat} (low : least < 2 ^ 63)
    (free : q.shared.contains (UInt64.ofNat least) = false)
    (taken : ∀ m < least, q.shared.contains (UInt64.ofNat m) = true) :
    q.firstFree q.shared.size q.nextFree = UInt64.ofNat least := by
  have word : (UInt64.ofNat least).toNat = least := UInt64.toNat_ofNat_of_lt' (Nat.lt_trans low (by decide))
  have begun : q.nextFree.toNat ≤ least := by
    by_contra beyond
    have below : UInt64.ofNat least < q.nextFree := UInt64.lt_iff_toNat_lt.mpr (by omega)
    rw [named.dense _ below] at free
    cases free
  have reach : ∀ j, q.nextFree + UInt64.ofNat j = UInt64.ofNat (q.nextFree.toNat + j) := by
    intro j
    rw [UInt64.ofNat_add, UInt64.ofNat_toNat]
  have ends : q.nextFree + UInt64.ofNat (least - q.nextFree.toNat) = UInt64.ofNat least := by
    rw [reach, Nat.add_sub_cancel' begun]
  have enough := size_of_taken (Nat.le_of_lt (Nat.lt_trans low (by decide))) taken
  rw [← ends]
  apply firstFree_eq (Nat.le_trans (Nat.sub_le _ _) enough)
  · intro j below
    rw [reach]
    exact taken _ (by omega)
  · rw [ends]
    exact free

theorem Named.firstFree (named : q.Named) (spare : q.Spare) :
    (q.firstFree q.shared.size q.nextFree).toNat < 2 ^ 63 ∧
      q.shared.contains (q.firstFree q.shared.size q.nextFree) = false ∧
      ∀ lower < q.firstFree q.shared.size q.nextFree, q.shared.contains lower = true := by
  obtain ⟨least, low, free, taken⟩ := spare.least
  have word : (UInt64.ofNat least).toNat = least := UInt64.toNat_ofNat_of_lt' (Nat.lt_trans low (by decide))
  rw [named.search_eq low free taken, word]
  refine ⟨low, free, fun lower below => ?_⟩
  have less := UInt64.lt_iff_toNat_lt.mp below
  rw [word] at less
  have there := taken lower.toNat less
  rwa [UInt64.ofNat_toNat] at there

/-! The creation of a queue, under the least free number or under a given one. -/

variable {id : Int64}

theorem create_least (named : q.Named) (spare : q.Spare) (any : id.toInt = -1) :
    ∃ free : QueueId, free.toNat < 2 ^ 63 ∧ q.shared.contains free = false ∧
      (∀ lower < free, q.shared.contains lower = true) ∧
      q.create id = (.ok free, { q with shared := q.shared.insert free [], nextFree := free }) := by
  obtain ⟨low, free, least⟩ := named.firstFree spare
  refine ⟨_, low, free, least, ?_⟩
  simp [create, any, free]

theorem create_given (given : 0 ≤ id.toInt) :
    q.create id =
      if q.shared.contains (UInt64.ofNat id.toInt.toNat) then
        (.error (.queueExists (UInt64.ofNat id.toInt.toNat)), q)
      else
        (.ok (UInt64.ofNat id.toInt.toNat),
          { q with shared := q.shared.insert (UInt64.ofNat id.toInt.toNat) [] }) := by
  have other : id.toInt ≠ -1 := by omega
  simp [create, other, Int.not_lt.mpr given]

theorem create_invalid (negative : id.toInt < -1) : q.create id = (.error (.invalidQueueId id.toInt), q) := by
  have other : id.toInt ≠ -1 := by omega
  have below : id.toInt < 0 := by omega
  simp [create, other, below]

theorem given_low (given : 0 ≤ id.toInt) : (UInt64.ofNat id.toInt.toNat).toNat < 2 ^ 63 := by
  have bound : id.toInt < 2 ^ 63 := id.toInt_lt
  have word : id.toInt.toNat < UInt64.size := by
    simp only [UInt64.size]
    omega
  rw [UInt64.toNat_ofNat_of_lt' word]
  omega

theorem Named.insert (named : q.Named) {n start : QueueId} (low : n.toNat < 2 ^ 63)
    (dense : ∀ lower < start, q.shared.contains lower = true) :
    Named { q with shared := q.shared.insert n [], nextFree := start } where
  global := by simp [Table.contains_insert, named.global]
  low other present := by
    rw [Table.contains_insert, Bool.or_eq_true, decide_eq_true_eq] at present
    rcases present with rfl | before
    · exact .inr low
    · exact named.low other before
  dense lower below := by simp [Table.contains_insert, dense lower below]

theorem create_cases (named : q.Named) (spare : id = -1 → q.Spare) :
    (∃ e, q.create id = (.error e, q)) ∨
    ∃ n start, n.toNat < 2 ^ 63 ∧ (∀ lower < start, q.shared.contains lower = true) ∧
      q.create id = (.ok n, { q with shared := q.shared.insert n [], nextFree := start }) := by
  rcases Int.lt_trichotomy id.toInt (-1) with negative | any | given
  · exact .inl ⟨_, create_invalid negative⟩
  · obtain ⟨free, low, _, least, made⟩ := create_least named (spare (Int64.toInt_inj.mp any)) any
    exact .inr ⟨free, free, low, least, made⟩
  · have given : 0 ≤ id.toInt := by omega
    rw [create_given given]
    split
    · exact .inl ⟨_, rfl⟩
    · exact .inr ⟨_, q.nextFree, given_low given, named.dense, rfl⟩

theorem Named.created (named : q.Named) (spare : id = -1 → q.Spare) : (q.create id).2.Named := by
  rcases create_cases named spare with ⟨e, refused⟩ | ⟨n, start, low, dense, made⟩
  · rw [refused]
    exact named
  · rw [made]
    exact named.insert low dense

/-- How a request for a queue is answered: one for any number with the least that is free, one for a given
number if that is free, and another one not at all. A refusal changes nothing. -/
structure Allots (q : Queues) (id : Int64) : Prop where
  least : id = -1 → ∃ free : QueueId, (q.create id).1 = .ok free ∧ free.toNat < 2 ^ 63 ∧
    q.shared.contains free = false ∧ ∀ lower < free, q.shared.contains lower = true
  given : 0 ≤ id.toInt → (q.create id).1 =
    if q.shared.contains (UInt64.ofNat id.toInt.toNat) then .error (.queueExists (UInt64.ofNat id.toInt.toNat))
    else .ok (UInt64.ofNat id.toInt.toNat)
  invalid : id.toInt < -1 → (q.create id).1 = .error (.invalidQueueId id.toInt)
  refused : ∀ e, (q.create id).1 = .error e → (q.create id).2 = q
  made : ∀ n, (q.create id).1 = .ok n →
    (q.create id).2.locals = q.locals ∧ (q.create id).2.idle = q.idle ∧
      ∀ other, (q.create id).2.shared.get? other = if other = n then some [] else q.shared.get? other

theorem Named.allots (named : q.Named) (spare : id = -1 → q.Spare) : q.Allots id where
  least any := by
    obtain ⟨free, low, unused, least, answer⟩ := create_least named (spare any) (Int64.toInt_inj.mpr any)
    exact ⟨free, congrArg Prod.fst answer, low, unused, least⟩
  given given := by
    rw [create_given given]
    split <;> rfl
  invalid negative := congrArg Prod.fst (create_invalid negative)
  refused e refused := by
    rcases create_cases named spare with ⟨_, answer⟩ | ⟨_, _, _, _, answer⟩
    · exact congrArg Prod.snd answer
    · rw [answer] at refused
      cases refused
  made n made := by
    rcases create_cases named spare with ⟨_, answer⟩ | ⟨_, _, _, _, answer⟩ <;> rw [answer] at made ⊢
    · cases made
    · cases made
      exact ⟨rfl, rfl, fun other => Table.get?_insert _ _ _ _⟩

end Queues

theorem Callback.run_named {ω α : Type} (cpu : CpuId) (now : Nanos) (c : Callback ω α) {p : Progress ω}
    (named : p.queues.Named) (spare : ∀ a ∈ c.creations cpu now p, a.2 = -1 → a.1.Spare) :
    (c.run cpu now p).2.queues.Named ∧ ∀ a ∈ c.creations cpu now p, a.1.Named := by
  induction c generalizing p with
  | done value => exact ⟨named, fun _ member => absurd member List.not_mem_nil⟩
  | createQueue id next ih =>
    obtain ⟨first, later⟩ := List.forall_mem_cons.mp spare
    obtain ⟨after, all⟩ := ih _ (p := { p with queues := (p.queues.create id).2 }) (named.created first) later
    exact ⟨after, List.forall_mem_cons.mpr ⟨named, all⟩⟩
  | selectCpu previous next ih =>
    exact ih _ (p := { p with queues := _ }) (named.of_names (.selectCpu _ previous)) spare
  | dispatch pid queue slice next ih =>
    exact ih (by rwa [Progress.dispatch_queues]) spare
  | consume queue next ih =>
    refine ih _ (p := (p.consume queue cpu).2) ?_ spare
    unfold Progress.consume
    split
    · rename_i moved
      exact named.of_names (.moveToLocal moved)
    · exact named
  | queued queue next ih => exact ih _ named spare
  | moment next ih => exact ih _ named spare
  | fail message next ih => exact ih named spare
  | readMemory next ih => exact ih _ named spare
  | writeMemory memory next ih => exact ih named spare

end LoadableSched
