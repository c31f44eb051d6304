import LoadableSched.Proofs.Averaging
import LoadableSched.Proofs.Class.Lasting
import LoadableSched.Proofs.Policy.Bookkeeping
import LoadableSched.Proofs.Recency

/-!
What priority for I/O keeps of the usage of tasks where it averages: as long as nobody else adds to it, that
is never more than a slice.
-/

namespace LoadableSched

namespace Store

variable {s s' : Store} {key value : Bytes} {entry : Bytes × Bytes}

theorem mem_of_mem_get (member : entry ∈ (s.get key).2.entries) : entry ∈ s.entries := by
  unfold get at member
  split at member
  · exact member
  · rename_i found
    split at member
    · exact member
    · rcases List.mem_cons.mp member with same | kept
      · exact same ▸ mem_of_peek found
      · exact List.mem_of_mem_filter kept

theorem mem_of_mem_put (made : s.put key value = .ok s') (member : entry ∈ s'.entries) :
    entry ∈ s.entries ∨ entry.2 = value := by
  unfold put at made
  split at made
  · cases made
  split at made
  · split at made
    · cases made
      obtain ⟨⟨k, v⟩, kept, same⟩ := List.mem_map.mp member
      dsimp only at same
      split at same
      · exact .inr (same ▸ rfl)
      · exact .inl (same ▸ kept)
    split at made
    · cases made
    · cases made
      rcases List.mem_append.mp member with kept | new
      · exact .inl kept
      · exact .inr (List.mem_singleton.mp new ▸ rfl)
  · cases made
    rcases List.mem_cons.mp (List.mem_of_mem_take member) with new | kept
    · exact .inr (new ▸ rfl)
    · exact .inl (List.mem_of_mem_filter kept)

end Store

namespace Memory

variable {id other : StoreId} {m m' : Memory} {bound : Nanos} {pid : Pid}

def AddsNothing (id : StoreId) (m m' : Memory) : Prop :=
  ∀ entry ∈ (m'.store id).entries, entry ∈ (m.store id).entries

def Within (bound : Nanos) (id : StoreId) (m : Memory) : Prop :=
  ∀ entry ∈ (m.store id).entries, ∀ time : Nanos, Word.decode? entry.2 = some time → time ≤ bound

theorem mem_setStore {s : Store} {entry : Bytes × Bytes} (member : entry ∈ ((m.setStore other s).store id).entries) :
    entry ∈ (m.store id).entries ∨ other = id ∧ entry ∈ s.entries := by
  simp only [store, setStore, List.getD_eq_getElem?_getD, List.getElem?_set] at member ⊢
  split at member
  · rename_i same
    split at member
    · exact .inr ⟨same, member⟩
    · simp only [Option.getD_none] at member
      exact absurd member List.not_mem_nil
  · exact .inl member

namespace Within

theorem of_addsNothing (within : m.Within bound id) (nothing : AddsNothing id m m') : m'.Within bound id :=
  fun entry member => within entry (nothing entry member)

theorem read (within : m.Within bound id) (other : StoreId) (pid : Pid) :
    (m.read other pid).2.Within bound id := by
  intro entry member
  rcases mem_setStore member with kept | ⟨rfl, found⟩
  · exact within entry kept
  · exact within entry (Store.mem_of_mem_get found)

theorem read_le (within : m.Within bound id) {time : Nanos} (found : (m.read id pid).1 = some time) :
    time ≤ bound := by
  have looked : ((m.store id).get (Word.encode pid)).1.bind Word.decode? = some time := found
  obtain ⟨bytes, there, word⟩ := Option.bind_eq_some_iff.mp looked
  rw [Store.get_value] at there
  exact within _ (Store.mem_of_peek there) time word

theorem write (within : m.Within bound id) {time : Nanos} (fine : other = id → time ≤ bound) :
    (m.write other pid time).Within bound id := by
  unfold Memory.write
  split
  · exact within
  · rename_i made
    intro entry member
    rcases mem_setStore member with kept | ⟨rfl, found⟩
    · exact within entry kept
    · rcases Store.mem_of_mem_put made found with kept | new
      · exact within entry kept
      · intro time' word
        rw [new, Word.decode_encode] at word
        cases word
        exact fine rfl

end Within

end Memory

theorem Usage.percent_le {slice : Nanos} {sample : Option Nanos} (fits : ∀ u, sample = some u → u ≤ slice) :
    percent sample slice ≤ 100 := by
  unfold percent
  cases sample with
  | none => exact UInt64.le_refl _
  | some u =>
    dsimp only
    split
    · exact UInt64.le_refl _
    · have least : u.toNat * 100 / slice.toNat ≤ 100 :=
        Nat.div_le_of_le_mul (Nat.mul_le_mul_right 100 (UInt64.le_iff_toNat_le.mp (fits u rfl)))
      rw [UInt64.le_iff_toNat_le, clampWord_toNat]
      exact Nat.le_trans (Nat.min_le_left _ _) least

theorem Usage.used_le (slice remaining : Nanos) : used slice remaining ≤ slice := by
  rw [UInt64.le_iff_toNat_le, used, subSat_toNat]
  exact Nat.sub_le _ _

namespace IoPriority

variable {p : IoPriority} {weight : UInt64} {initial : Nanos} {m : Memory}

theorem percent_le (within : m.Within p.slice p.maps.sliceUsage) (pid : Pid) : (p.percent pid m).1 ≤ 100 :=
  Usage.percent_le fun _ found => within.read_le found

def averaged (p : IoPriority) (weight : UInt64) (initial : Nanos) (task : Task) (m : Memory) : Nanos :=
  Usage.average ((m.read p.maps.sliceUsage task.pid).1.getD initial) (Usage.used p.slice task.slice) weight

theorem averaged_le (assumed : initial ≤ p.slice) (within : m.Within p.slice p.maps.sliceUsage) (task : Task) :
    p.averaged weight initial task m ≤ p.slice := by
  refine Usage.average_le ?_ (Usage.used_le _ _)
  cases found : (m.read p.maps.sliceUsage task.pid).1 with
  | none => exact assumed
  | some previous => exact within.read_le found

theorem noted_average (averages : p.model = .average weight initial) (task : Task) (m : Memory) :
    p.noted task.pid (Usage.used p.slice task.slice) m =
      ((m.read p.maps.sliceUsage task.pid).2.write p.maps.sliceUsage task.pid
        (p.averaged weight initial task m)).count p.counters
          (Counters.recordSlice (Usage.used p.slice task.slice) p.slice) := by
  rw [noted, averages]
  rfl

theorem stopping_notes {i : SchedClass.Inquiry Memory} (same : i.policy = p.policy) {cpu : CpuId} {task : Task}
    {runnable : Bool} (matter : i.matter = .stopping cpu task runnable) :
    i.after.memory = p.noted task.pid (Usage.used p.slice task.slice) i.before.memory := by
  have records : i.policy.Records p.bookkeeping := same ▸ p.records
  have allows : p.bookkeeping.Allows i.before.clock i.before.memory i.matter i.dispatches i.called.memory :=
    records.allows i.before i.matter (by rw [matter]; nofun)
  rw [matter, ← i.called_lasts.memory] at allows
  generalize i.dispatches = made at allows
  cases allows with
  | halts halt => exact halt

theorem called_within (averages : p.model = .average weight initial) (assumed : initial ≤ p.slice)
    (apart : p.maps.enqueueTime ≠ p.maps.sliceUsage) {i : SchedClass.Inquiry Memory} (same : i.policy = p.policy)
    (within : i.before.memory.Within p.slice p.maps.sliceUsage) :
    i.called.memory.Within p.slice p.maps.sliceUsage := by
  refine p.records.keeps (fun placed now m m' ready within => ?_) (fun pid now m m' start within => ?_)
    (fun task m m' halt within => ?_) same within
  · have stamped : ∀ m : Memory, m.Within p.slice p.maps.sliceUsage →
        (m.write p.maps.enqueueTime placed.pid now).Within p.slice p.maps.sliceUsage :=
      fun m within => within.write fun here => absurd here apart
    rcases ready with ⟨_, rfl⟩ | ⟨_, rfl⟩
    · exact stamped m within
    · exact stamped _ (within.read _ _)
  · have looked := within.read p.maps.enqueueTime pid
    rw [bookkeeping] at start
    dsimp only at start
    generalize m.read p.maps.enqueueTime pid = found at start looked
    obtain ⟨_ | since, m⟩ := found
    · exact start ▸ looked
    · exact start ▸ looked.read p.maps.sliceUsage pid
  · rw [halt, noted_average averages]
    exact (within.read _ _).write fun _ => averaged_le assumed within task

end IoPriority

namespace SchedClass

/-- In a run nobody but one policy adds to a store, neither another policy nor anyone from outside. -/
structure AddsAlone (policy : Policy Memory) (id : StoreId) (c : SchedClass Memory)
    (ops : List (Operation Memory)) : Prop where
  inside : ∀ i ∈ c.allInquiries ops, i.policy ≠ policy → Memory.AddsNothing id i.before.memory i.after.memory
  outside : ∀ early m, early ++ [.setMemory m] <+: ops → Memory.AddsNothing id (c.steps early).memory m

/-- The average of 128 bits fits, lies between the least and the greatest of the start and the samples so far,
and follows each of them. So if priority for I/O assumes no more than a slice at first and nothing was recorded
before, then in no run in which it alone records usages is more than a slice ever recorded, or more than all of
it looked up. -/
theorem averages_stay_within (weight : UInt64) :
    (∀ previous sample, Usage.numerator previous sample weight < 2 ^ 128 ∧
      Usage.numerator previous sample weight / Tunables.fixedOne < 2 ^ 64 ∧
      (Usage.average previous sample weight).toNat =
        Usage.numerator previous sample weight / Tunables.fixedOne) ∧
    (∀ start samples i x, (Usage.averages start weight samples)[i]? = some x →
      (samples.take (i + 1)).foldl min start ≤ x ∧ x ≤ (samples.take (i + 1)).foldl max start) ∧
    (∀ start start' samples samples', start ≤ start' → List.Forall₂ (· ≤ ·) samples samples' →
      List.Forall₂ (· ≤ ·) (Usage.averages start weight samples) (Usage.averages start' weight samples')) ∧
    ∀ (p : IoPriority) (initial : Nanos), p.model = .average weight initial → initial ≤ p.slice →
      p.maps.enqueueTime ≠ p.maps.sliceUsage → ∀ (c : SchedClass Memory) (ops : List (Operation Memory)),
      (c.memory.store p.maps.sliceUsage).entries = [] → c.AddsAlone p.policy p.maps.sliceUsage ops →
      (∀ i ∈ c.allInquiries ops, i.policy = p.policy →
        (∀ pid, (p.percent pid i.before.memory).1 ≤ 100 ∧
          (p.percent pid (i.before.memory.read p.maps.enqueueTime pid).2).1 ≤ 100) ∧
        ∀ cpu task runnable, i.matter = .stopping cpu task runnable →
          let value := p.averaged weight initial task i.before.memory
          value ≤ p.slice ∧ i.after.memory =
            ((i.before.memory.read p.maps.sliceUsage task.pid).2.write p.maps.sliceUsage task.pid value).count
              p.counters (Counters.recordSlice (Usage.used p.slice task.slice) p.slice)) ∧
      ∀ pid, (p.percent pid (c.steps ops).memory).1 ≤ 100 ∧
        ∀ value, ((c.steps ops).memory.read p.maps.sliceUsage pid).1 = some value → value ≤ p.slice := by
  refine ⟨fun previous sample => ?_, fun start samples i x => Usage.averages_between,
    fun start start' samples samples' => Usage.averages_mono, ?_⟩
  · obtain ⟨products, quotient⟩ := Usage.numerator_fits previous sample weight
    exact ⟨products, quotient, Usage.average_toNat previous sample weight⟩
  · intro p initial averages assumed apart c ops nothing alone
    have first : c.memory.Within p.slice p.maps.sliceUsage := fun entry member => by
      rw [nothing] at member
      exact absurd member List.not_mem_nil
    obtain ⟨last, always⟩ := steps_last (Q := Memory.Within p.slice p.maps.sliceUsage)
      (fun i member within => by
        by_cases own : i.policy = p.policy
        · exact IoPriority.called_within averages assumed apart own within
        · exact within.of_addsNothing (i.called_lasts.memory ▸ alone.inside i member own))
      (fun early m here within => within.of_addsNothing (alone.outside early m here)) first
    refine ⟨fun i member own => ⟨fun pid => ?_, fun cpu task runnable matter => ?_⟩, fun pid => ?_⟩
    · have before := always i member
      exact ⟨IoPriority.percent_le before pid, IoPriority.percent_le (before.read _ _) pid⟩
    · refine ⟨IoPriority.averaged_le assumed (always i member) task, ?_⟩
      exact (IoPriority.stopping_notes own matter).trans (IoPriority.noted_average averages task _)
    · exact ⟨IoPriority.percent_le last pid, fun value => last.read_le⟩

def averaging : IoPriority := ⟨20000000, 5000000, 50, .average 500000 20000000, ⟨0, 1⟩, 0⟩

def oneTurn : List (Operation Memory) :=
  [.install averaging.policy, .addTask { pid := 1 }, .enqueue 1 0, .pickNext 0, .stop 0 100000 false]

theorem one_turn_stays_within :
    let c := (new 1 Memory.empty.newTaskMaps.2.newCounters.2).steps oneTurn
    (c.memory.read 1 1).1 = some 10050000 ∧ ∀ pid, (averaging.percent pid c.memory).1 ≤ 100 := by
  intro c
  have alone : (new 1 Memory.empty.newTaskMaps.2.newCounters.2).AddsAlone averaging.policy 1 oneTurn := by
    refine ⟨fun i member other => absurd ?_ other, fun early m within => ?_⟩
    · have asked : ((new 1 Memory.empty.newTaskMaps.2.newCounters.2).allInquiries oneTurn).map (·.policy) =
          List.replicate 6 averaging.policy := rfl
      exact List.eq_of_mem_replicate (asked ▸ List.mem_map_of_mem member)
    · have member : .setMemory m ∈ oneTurn := within.subset (by simp)
      simp [oneTurn] at member
  obtain ⟨_, _, _, runs⟩ := averages_stay_within 500000
  obtain ⟨_, last⟩ := runs averaging 20000000 rfl (by decide) (by decide) _ oneTurn rfl alone
  exact ⟨by decide +kernel, fun pid => (last pid).1⟩

end SchedClass

end LoadableSched
