import LoadableSched.Proofs.Class.Driving
import LoadableSched.Workload.Run
import Mathlib.Data.List.Nodup

/-!
The line of sleepers, in which the first to wake stands in front, and the waking of those that are due.
Each sleeper in the line stands for one sleeping task.
-/

namespace LoadableSched

variable {ω : Type} {c : SchedClass ω} {line : List Sleeper}

namespace Sleeper

def InLine (line : List Sleeper) : Prop := line.Pairwise fun a b => a.due ≤ b.due

theorem due_le_of_before {a b : Sleeper} (first : a.before b = true) : a.due ≤ b.due := by
  simp only [before, Bool.or_eq_true, Bool.and_eq_true, decide_eq_true_eq] at first
  rcases first with less | ⟨same, _⟩
  · exact UInt64.le_of_lt less
  · exact same ▸ UInt64.le_refl _

theorem due_le_of_not_before {a b : Sleeper} (second : a.before b ≠ true) : b.due ≤ a.due := by
  refine UInt64.not_lt.mp fun less => second ?_
  simp [before, less]

theorem insert_perm (s : Sleeper) (line : List Sleeper) : (s.insert line).Perm (s :: line) := by
  induction line with
  | nil => exact .refl _
  | cons t rest ih =>
    unfold insert
    split
    · exact .refl _
    · exact (ih.cons t).trans (.swap s t rest)

theorem InLine.insert (inLine : InLine line) (s : Sleeper) : InLine (s.insert line) := by
  induction line with
  | nil => exact List.pairwise_singleton _ s
  | cons t rest ih =>
    obtain ⟨least, rest'⟩ := List.pairwise_cons.mp inLine
    unfold Sleeper.insert
    split
    · rename_i first
      have below := due_le_of_before first
      refine List.pairwise_cons.mpr ⟨fun other member => ?_, inLine⟩
      rcases List.mem_cons.mp member with rfl | later
      · exact below
      · exact UInt64.le_trans below (least other later)
    · rename_i second
      refine List.pairwise_cons.mpr ⟨fun other member => ?_, ih rest'⟩
      rcases List.mem_cons.mp ((insert_perm s rest).mem_iff.mp member) with rfl | later
      · exact due_le_of_not_before second
      · exact least other later

end Sleeper

namespace Workload

structure Sleeps (line : List Sleeper) (c : SchedClass ω) : Prop where
  inLine : Sleeper.InLine line
  distinct : (line.map (·.pid)).Nodup
  asleep : ∀ s ∈ line, c.state? s.pid = some .sleeping

theorem Sleeps.eq_of_pid (sleeps : Sleeps line c) {s t : Sleeper} (first : s ∈ line) (second : t ∈ line)
    (same : s.pid = t.pid) : s = t :=
  List.inj_on_of_nodup_map sleeps.distinct first second same

theorem Sleeps.wake {s : Sleeper} (sleeps : Sleeps (s :: line) c) (steady : c.Steady) :
    Sleeps line (c.wake s.pid wakeRunnable).2 := by
  obtain ⟨_, inLine⟩ := List.pairwise_cons.mp sleeps.inLine
  obtain ⟨apart, distinct⟩ := List.nodup_cons.mp sleeps.distinct
  obtain ⟨_, _, _, states⟩ := steady.wakes (sleeps.asleep s List.mem_cons_self) wakeRunnable
  refine ⟨inLine, distinct, fun t later => ?_⟩
  rw [states, if_neg fun same => apart (List.mem_map.mpr ⟨t, later, same⟩)]
  exact sleeps.asleep t (List.mem_cons_of_mem _ later)

/-- From `c` to `d` the sleepers that were due are woken, and no other task is concerned. -/
structure Wakes (line : List Sleeper) (c d : SchedClass ω) : Prop where
  steady : d.Steady
  clock : d.clock = c.clock
  current : d.current = c.current
  woken : ∀ s ∈ line, s.due ≤ c.clock → d.state? s.pid = some .queued
  others : ∀ pid, (∀ s ∈ line, s.due ≤ c.clock → s.pid ≠ pid) → d.state? pid = c.state? pid

theorem Wakes.nobody (steady : c.Steady) (early : ∀ s ∈ line, c.clock < s.due) : Wakes line c c where
  steady := steady
  clock := rfl
  current := rfl
  woken s member due := absurd (early s member) (UInt64.not_lt.mpr due)
  others _ _ := rfl

theorem wakeDue_wakes (steady : c.Steady) (sleeps : Sleeps line c) :
    (wakeDue c line).1 = (.ok (), line.filter (c.clock < ·.due)) ∧ Wakes line c (wakeDue c line).2 := by
  induction line generalizing c with
  | nil => exact ⟨rfl, .nobody steady (by simp)⟩
  | cons s rest ih =>
    obtain ⟨least, _⟩ := List.pairwise_cons.mp sleeps.inLine
    obtain ⟨apart, _⟩ := List.nodup_cons.mp sleeps.distinct
    unfold wakeDue
    by_cases early : c.clock < s.due
    · -- The line is in order: nobody behind one who is early is due.
      rw [if_pos early]
      have all : ∀ t ∈ s :: rest, c.clock < t.due := by
        rintro t (_ | ⟨_, later⟩)
        · exact early
        · exact UInt64.lt_of_lt_of_le early (least t later)
      refine ⟨?_, .nobody steady all⟩
      rw [List.filter_eq_self.mpr fun t member => decide_eq_true (all t member)]
    · -- The clock stands still while sleepers are woken, and each is another task than the first.
      rw [if_neg early]
      obtain ⟨result, after, current, states⟩ := steady.wakes (sleeps.asleep s List.mem_cons_self) wakeRunnable
      have clock := c.wake_clock s.pid wakeRunnable
      have still := sleeps.wake steady
      have ne : ∀ t ∈ rest, t.pid ≠ s.pid := fun t later same =>
        apart (List.mem_map.mpr ⟨t, later, same⟩)
      generalize c.wake s.pid wakeRunnable = woken at *
      obtain ⟨_, d⟩ := woken
      cases result
      obtain ⟨result, wakes⟩ := ih after still
      rw [clock] at result
      have due : s.due ≤ c.clock := UInt64.not_lt.mp early
      refine ⟨?_, wakes.steady, wakes.clock.trans clock, wakes.current.trans current, ?_, ?_⟩
      · rw [result, List.filter_cons_of_neg (by simpa using due)]
      · rintro t (_ | ⟨_, later⟩) dueToo
        · have others := wakes.others s.pid fun t later _ => ne t later
          rw [others, states, if_pos rfl]
        · exact wakes.woken t later (clock ▸ dueToo)
      · intro pid not
        have others := wakes.others pid fun t later dueToo =>
          not t (List.mem_cons_of_mem _ later) (clock ▸ dueToo)
        rw [others, states, if_neg (not s List.mem_cons_self due).symm]

end Workload

end LoadableSched
