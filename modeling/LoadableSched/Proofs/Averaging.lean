import LoadableSched.Usage
import Mathlib.Algebra.Order.Ring.Nat
import Mathlib.Data.List.Forall2
import Mathlib.Logic.Function.Iterate
import Mathlib.Tactic.Ring

/-!
The moving average in fixed point. It never leaves the range of its inputs, follows each of them, and comes to
rest on a sample that stays the same, or as close below it as rounding lets it.
-/

namespace LoadableSched.Usage

open Tunables (fixedOne)

variable {a b s t lo hi c : UInt64}

def share (c : UInt64) : Nat := min c.toNat fixedOne

theorem share_le (c : UInt64) : share c ≤ fixedOne := Nat.min_le_right _ _

def numerator (previous sample c : UInt64) : Nat :=
  previous.toNat * share c + (fixedOne - share c) * sample.toNat

theorem fixedOne_pos : 0 < fixedOne := by decide

theorem numerator_le (first : a ≤ hi) (second : s ≤ hi) : numerator a s c ≤ hi.toNat * fixedOne := by
  calc numerator a s c
      ≤ hi.toNat * share c + (fixedOne - share c) * hi.toNat :=
        Nat.add_le_add (Nat.mul_le_mul_right _ (UInt64.le_iff_toNat_le.mp first))
          (Nat.mul_le_mul_left _ (UInt64.le_iff_toNat_le.mp second))
    _ = hi.toNat * fixedOne := by
        rw [Nat.mul_comm (fixedOne - _), ← Nat.mul_add, Nat.add_sub_cancel' (share_le c)]

theorem le_numerator (first : lo ≤ a) (second : lo ≤ s) : lo.toNat * fixedOne ≤ numerator a s c := by
  calc lo.toNat * fixedOne
      = lo.toNat * share c + (fixedOne - share c) * lo.toNat := by
        rw [Nat.mul_comm (fixedOne - _), ← Nat.mul_add, Nat.add_sub_cancel' (share_le c)]
    _ ≤ numerator a s c :=
        Nat.add_le_add (Nat.mul_le_mul_right _ (UInt64.le_iff_toNat_le.mp first))
          (Nat.mul_le_mul_left _ (UInt64.le_iff_toNat_le.mp second))

theorem numerator_div_le (first : a ≤ hi) (second : s ≤ hi) : numerator a s c / fixedOne ≤ hi.toNat :=
  Nat.div_le_of_le_mul (Nat.mul_comm _ _ ▸ numerator_le first second)

theorem numerator_fits (previous sample c : UInt64) :
    numerator previous sample c < 2 ^ 128 ∧ numerator previous sample c / fixedOne < 2 ^ 64 := by
  have most : ∀ x : UInt64, x ≤ UInt64.ofNat maxWord := fun x =>
    UInt64.le_iff_toNat_le.mpr (Nat.le_of_lt_succ x.toNat_lt)
  constructor
  · exact Nat.lt_of_le_of_lt (numerator_le (most previous) (most sample)) (by decide)
  · exact Nat.lt_of_le_of_lt (numerator_div_le (most previous) (most sample)) (by decide)

theorem average_toNat (previous sample c : UInt64) :
    (average previous sample c).toNat = numerator previous sample c / fixedOne := by
  have fits := (numerator_fits previous sample c).2
  exact (clampWord_toNat _).trans (Nat.min_eq_left (Nat.le_of_lt_succ fits))

theorem average_le (first : a ≤ hi) (second : s ≤ hi) : average a s c ≤ hi := by
  rw [UInt64.le_iff_toNat_le, average_toNat]
  exact numerator_div_le first second

theorem le_average (first : lo ≤ a) (second : lo ≤ s) : lo ≤ average a s c := by
  rw [UInt64.le_iff_toNat_le, average_toNat, Nat.le_div_iff_mul_le fixedOne_pos]
  exact le_numerator first second

theorem average_mono (first : a ≤ b) (second : s ≤ t) : average a s c ≤ average b t c := by
  rw [UInt64.le_iff_toNat_le, average_toNat, average_toNat]
  exact Nat.div_le_div_right (Nat.add_le_add (Nat.mul_le_mul_right _ (UInt64.le_iff_toNat_le.mp first))
    (Nat.mul_le_mul_left _ (UInt64.le_iff_toNat_le.mp second)))

/-! Series of samples. -/

theorem max_le_iff : max a b ≤ t ↔ a ≤ t ∧ b ≤ t := by
  have split : max a b = if a ≤ b then b else a := rfl
  simp only [split, UInt64.le_iff_toNat_le]
  split <;> omega

theorem left_le_max : a ≤ max a b := (max_le_iff.mp (UInt64.le_refl _)).1

theorem right_le_max : b ≤ max a b := (max_le_iff.mp (UInt64.le_refl _)).2

theorem foldl_min_mono (samples : List UInt64) (less : a ≤ b) : samples.foldl min a ≤ samples.foldl min b := by
  induction samples generalizing a b with
  | nil => exact less
  | cons s rest ih =>
    exact ih (Std.le_min_iff.mpr ⟨UInt64.le_trans Std.min_le_left less, Std.min_le_right⟩)

theorem foldl_max_mono (samples : List UInt64) (less : a ≤ b) : samples.foldl max a ≤ samples.foldl max b := by
  induction samples generalizing a b with
  | nil => exact less
  | cons s rest ih =>
    exact ih (max_le_iff.mpr ⟨UInt64.le_trans less left_le_max, right_le_max⟩)

/-- Each average lies between the least and the greatest of the start and the samples up to it. -/
theorem averages_between {start x : UInt64} {samples : List UInt64} {i : Nat}
    (there : (averages start c samples)[i]? = some x) :
    (samples.take (i + 1)).foldl min start ≤ x ∧ x ≤ (samples.take (i + 1)).foldl max start := by
  induction samples generalizing start i with
  | nil => simp [averages] at there
  | cons s rest ih =>
    have least : min start s ≤ average start s c := le_average Std.min_le_left Std.min_le_right
    have greatest : average start s c ≤ max start s := average_le left_le_max right_le_max
    cases i with
    | zero =>
      cases there
      simpa using ⟨least, greatest⟩
    | succ i =>
      obtain ⟨above, below⟩ := ih there
      rw [List.take_succ_cons, List.foldl_cons, List.foldl_cons]
      exact ⟨UInt64.le_trans (foldl_min_mono _ least) above, UInt64.le_trans below (foldl_max_mono _ greatest)⟩

theorem averages_mono {samples greater : List UInt64} (first : a ≤ b)
    (rest : List.Forall₂ (· ≤ ·) samples greater) :
    List.Forall₂ (· ≤ ·) (averages a c samples) (averages b c greater) := by
  induction rest generalizing a b with
  | nil => exact .nil
  | cons less _ ih =>
    have next := average_mono (c := c) first less
    exact .cons next (ih next)

/-! A sample that stays the same. -/

theorem average_of_ge (above : s ≤ a) :
    (average a s c).toNat = s.toNat + (a.toNat - s.toNat) * share c / fixedOne := by
  obtain ⟨d, far⟩ := Nat.exists_eq_add_of_le (UInt64.le_iff_toNat_le.mp above)
  obtain ⟨rest, whole⟩ := Nat.exists_eq_add_of_le (share_le c)
  have same : numerator a s c = d * share c + fixedOne * s.toNat := by
    rw [numerator, far, whole, Nat.add_sub_cancel_left]
    ring
  rw [average_toNat, same, Nat.add_mul_div_left _ _ fixedOne_pos, far, Nat.add_sub_cancel_left, Nat.add_comm]

theorem average_of_le (below : a ≤ s) :
    (average a s c).toNat = a.toNat + (fixedOne - share c) * (s.toNat - a.toNat) / fixedOne := by
  obtain ⟨d, far⟩ := Nat.exists_eq_add_of_le (UInt64.le_iff_toNat_le.mp below)
  obtain ⟨rest, whole⟩ := Nat.exists_eq_add_of_le (share_le c)
  have same : numerator a s c = (fixedOne - share c) * d + fixedOne * a.toNat := by
    rw [numerator, far, whole, Nat.add_sub_cancel_left]
    ring
  rw [average_toNat, same, Nat.add_mul_div_left _ _ fixedOne_pos, far, Nat.add_sub_cancel_left, Nat.add_comm]

theorem average_lt (partly : share c < fixedOne) (above : s < a) : average a s c < a := by
  have far : 0 < a.toNat - s.toNat := Nat.sub_pos_of_lt (UInt64.lt_iff_toNat_lt.mp above)
  have less : (a.toNat - s.toNat) * share c / fixedOne < a.toNat - s.toNat :=
    Nat.div_lt_of_lt_mul (Nat.mul_comm fixedOne _ ▸ Nat.mul_lt_mul_of_pos_left partly far)
  rw [UInt64.lt_iff_toNat_lt, average_of_ge (UInt64.le_of_lt above)]
  omega

theorem average_eq_self_iff (below : a ≤ s) :
    average a s c = a ↔ (fixedOne - share c) * (s.toNat - a.toNat) < fixedOne := by
  rw [← UInt64.toNat_inj, average_of_le below, Nat.add_eq_left, Nat.div_eq_zero_iff]
  exact or_iff_right fixedOne_pos.ne'

/-- The averages of a sample that stays the same, from a start value on. -/
def settling (sample c : UInt64) : UInt64 → Nat → UInt64
  | start, 0 => start
  | start, n + 1 => settling sample c (average start sample c) n

theorem settling_succ (sample c start : UInt64) (n : Nat) :
    settling sample c start (n + 1) = average (settling sample c start n) sample c := by
  induction n generalizing start with
  | zero => rfl
  | succ n ih => exact ih (average start sample c)

theorem settling_ge {sample start : UInt64} (above : sample ≤ start) (n : Nat) :
    sample ≤ settling sample c start n := by
  induction n with
  | zero => exact above
  | succ n ih =>
    rw [settling_succ]
    exact le_average ih (UInt64.le_refl _)

theorem settling_le {sample start : UInt64} (below : start ≤ sample) (n : Nat) :
    settling sample c start n ≤ sample := by
  induction n with
  | zero => exact below
  | succ n ih =>
    rw [settling_succ]
    exact average_le ih (UInt64.le_refl _)

def distance (a s : UInt64) : Nat := (a.toNat - s.toNat) + (s.toNat - a.toNat)

theorem average_closer (partly : share c < fixedOne) (moves : average a s c ≠ a) :
    distance (average a s c) s < distance a s := by
  have moved : (average a s c).toNat ≠ a.toNat := fun same => moves (UInt64.toNat_inj.mp same)
  unfold distance
  rcases Nat.lt_or_ge s.toNat a.toNat with above | below
  · have less := UInt64.lt_iff_toNat_lt.mp (average_lt partly (UInt64.lt_iff_toNat_lt.mpr above))
    have most := UInt64.le_iff_toNat_le.mp
      (le_average (c := c) (UInt64.le_of_lt (UInt64.lt_iff_toNat_lt.mpr above)) (UInt64.le_refl s))
    omega
  · have least := UInt64.le_iff_toNat_le.mp
      (le_average (c := c) (UInt64.le_refl a) (UInt64.le_iff_toNat_le.mpr below))
    have most := UInt64.le_iff_toNat_le.mp
      (average_le (c := c) (UInt64.le_iff_toNat_le.mpr below) (UInt64.le_refl s))
    omega

/-- The averages change up to some step, and then no more. -/
theorem settling_rests (partly : share c < fixedOne) (sample start : UInt64) :
    ∃ n ≤ distance start sample,
      (∀ m < n, settling sample c start (m + 1) ≠ settling sample c start m) ∧
      ∀ m, n ≤ m → settling sample c start m = settling sample c start n := by
  induction far : distance start sample using Nat.strongRecOn generalizing start with
  | ind d ih =>
    by_cases still : average start sample c = start
    · refine ⟨0, Nat.zero_le _, nofun, fun m _ => ?_⟩
      induction m with
      | zero => rfl
      | succ m again =>
        rw [settling_succ, again (Nat.zero_le m)]
        exact still
    · have closer := far ▸ average_closer partly still
      obtain ⟨n, bound, changes, rests⟩ := ih _ closer (average start sample c) rfl
      refine ⟨n + 1, Nat.lt_of_le_of_lt bound closer, fun m before => ?_, fun m later => ?_⟩
      · cases m with
        | zero => exact still
        | succ m => exact changes m (Nat.lt_of_succ_lt_succ before)
      · obtain ⟨m, rfl⟩ := Nat.exists_eq_add_of_le' (Nat.le_trans (Nat.le_add_left 1 n) later)
        exact rests m (Nat.le_of_succ_le_succ later)

/-- A sample that stays the same is approached from one side, by one or more in each step, and reached from
above. From below the averages come to rest where what they lack, weighed, is less than one. They do so in no
more steps than they were apart from the sample at first. -/
theorem constant_sample_is_approached (start sample c : UInt64) (partly : c.toNat < fixedOne) :
    ∃ n final, n ≤ distance start sample ∧ (∀ m, n ≤ m → settling sample c start m = final) ∧
      (sample ≤ start → final = sample ∧ ∀ m, sample ≤ settling sample c start m ∧
        settling sample c start (m + 1) ≤ settling sample c start m ∧
        (m < n → (settling sample c start (m + 1)).toNat + 1 ≤ (settling sample c start m).toNat)) ∧
      (start < sample → final ≤ sample ∧
        (fixedOne - c.toNat) * (sample.toNat - final.toNat) < fixedOne ∧
        ∀ m, settling sample c start m ≤ sample ∧
          settling sample c start m ≤ settling sample c start (m + 1) ∧
          (m < n → (settling sample c start m).toNat + 1 ≤ (settling sample c start (m + 1)).toNat)) := by
  have weight : share c = c.toNat := Nat.min_eq_left (Nat.le_of_lt partly)
  have part : share c < fixedOne := weight ▸ partly
  obtain ⟨n, bound, changes, rests⟩ := settling_rests part sample start
  have still : average (settling sample c start n) sample c = settling sample c start n :=
    (settling_succ sample c start n).symm.trans (rests (n + 1) (Nat.le_succ n))
  -- Where a step changes the average at all, it does so by one or more.
  have moves : ∀ m < n, (settling sample c start (m + 1)).toNat ≠ (settling sample c start m).toNat :=
    fun m before same => changes m before (UInt64.toNat_inj.mp same)
  refine ⟨n, _, bound, rests, fun above => ⟨?_, fun m => ?_⟩, fun below => ?_⟩
  · have reached := settling_ge (c := c) above n
    rcases Nat.lt_or_ge sample.toNat (settling sample c start n).toNat with less | most
    · have moved := average_lt part (UInt64.lt_iff_toNat_lt.mpr less)
      rw [still] at moved
      exact absurd moved (UInt64.lt_irrefl _)
    · exact UInt64.le_antisymm (UInt64.le_iff_toNat_le.mpr most) reached
  · have here := settling_ge (c := c) above m
    have falls : settling sample c start (m + 1) ≤ settling sample c start m := by
      rw [settling_succ]
      exact average_le (UInt64.le_refl _) here
    have falls' := UInt64.le_iff_toNat_le.mp falls
    exact ⟨here, falls, fun before => Nat.lt_of_le_of_ne falls' (moves m before)⟩
  · have most := fun m => settling_le (c := c) (UInt64.le_of_lt below) m
    have lacks := (average_eq_self_iff (most n)).mp still
    rw [weight] at lacks
    refine ⟨most n, lacks, fun m => ?_⟩
    have rises : settling sample c start m ≤ settling sample c start (m + 1) := by
      rw [settling_succ]
      exact le_average (UInt64.le_refl _) (most m)
    have rises' := UInt64.le_iff_toNat_le.mp rises
    exact ⟨most m, rises, fun before => Nat.lt_of_le_of_ne rises' (moves m before).symm⟩

/-- With even weights the averages come down from twenty to ten, and from zero up to nine. -/
theorem halfway_to_ten :
    (500000 : UInt64).toNat < fixedOne ∧ (∃ n, n ≤ 10 ∧ ∀ m, n ≤ m → settling 10 500000 20 m = 10) ∧
      ∃ n, n ≤ 10 ∧ ∀ m, n ≤ m → settling 10 500000 0 m = 9 := by
  have partly : (500000 : UInt64).toNat < fixedOne := by decide
  obtain ⟨n, final, soon, rests, falls, _⟩ := constant_sample_is_approached 20 10 500000 partly
  obtain ⟨k, last, early, stays, _⟩ := constant_sample_is_approached 0 10 500000 partly
  obtain ⟨rfl, _⟩ := falls (by decide)
  have ninth : settling 10 500000 0 10 = 9 := by decide
  exact ⟨partly, ⟨n, soon, rests⟩, k, early, fun m later =>
    (stays m later).trans ((stays 10 early).symm.trans ninth)⟩

end LoadableSched.Usage
