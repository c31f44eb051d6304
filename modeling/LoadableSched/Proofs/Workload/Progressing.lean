import LoadableSched.Proofs.Averaging
import LoadableSched.Proofs.Table
import LoadableSched.Proofs.Workload.Driving

/-!
How a workload gets on in time. A step stands still only if it has turns, and all of them are of tasks that run
in empty bursts; without such tasks a run gets to its deadline.
-/

namespace LoadableSched

namespace Usage

theorem foldl_max_le_iff {a b : UInt64} (all : List UInt64) :
    all.foldl max a ≤ b ↔ a ≤ b ∧ ∀ x ∈ all, x ≤ b := by
  induction all generalizing a with
  | nil => simp
  | cons x rest ih => rw [List.foldl_cons, ih, max_le_iff, List.forall_mem_cons, and_assoc]

end Usage

theorem Table.mem_of_get?_ofList {κ α : Type} [DecidableEq κ] [LT κ] [DecidableLT κ] {pairs : List (κ × α)} {k : κ}
    {v : α} (found : (Table.ofList pairs).get? k = some v) : (k, v) ∈ pairs := by
  rw [get?_ofList] at found
  obtain ⟨⟨j, v⟩, last, rfl⟩ := Option.map_eq_some_iff.mp found
  have same : j = k := by simpa using List.find?_some last
  exact same ▸ List.mem_reverse.mp (List.mem_of_find?_eq_some last)

def Burst.spend (burst : Burst) (ran : Nanos) : Burst :=
  let left := subSat burst.left ran
  { burst with left := if left = 0 then burst.profile.burst else left }

/-- A burst of one of the profiles, of which nothing is left only if it is empty. -/
structure Burst.Sound (profiles : List Profile) (burst : Burst) : Prop where
  profile : burst.profile ∈ profiles
  left : burst.left ≤ burst.profile.burst
  some : burst.left = 0 → burst.profile.burst = 0

namespace Burst.Sound

variable {profiles : List Profile} {burst : Burst}

theorem spend (sound : burst.Sound profiles) (ran : Nanos) : (burst.spend ran).Sound profiles := by
  unfold Burst.spend
  refine ⟨sound.profile, ?_, ?_⟩ <;> dsimp only <;> split
  · exact UInt64.le_refl _
  · have less : subSat burst.left ran ≤ burst.left := by
      rw [UInt64.le_iff_toNat_le, subSat_toNat]
      exact Nat.sub_le _ _
    exact UInt64.le_trans less sound.left
  · exact id
  · rename_i left
    exact fun none => absurd none left

theorem left_eq_zero_iff (sound : burst.Sound profiles) : burst.left = 0 ↔ burst.profile.burst = 0 := by
  refine ⟨sound.some, fun empty => ?_⟩
  exact UInt64.le_antisymm (empty ▸ sound.left) (UInt64.zero_le)

end Burst.Sound

namespace Workload

variable {ω : Type} {profiles : List Profile} {w : Workload} {c : SchedClass ω}

/-! The bursts of a workload. -/

theorem endTurn_bursts (w : Workload) (c : SchedClass ω) (t : Turn) : (w.endTurn c t).1.2.bursts =
    match w.bursts.get? t.pid with
    | none => w.bursts
    | some burst => w.bursts.insert t.pid (burst.spend t.ran) := by
  unfold endTurn
  cases w.bursts.get? t.pid with
  | none =>
    dsimp only
    split <;> rfl
  | some burst =>
    dsimp only
    split
    · split <;> simp [Burst.spend]
    · split <;> simp [Burst.spend]

theorem endTurn_get? (w : Workload) (c : SchedClass ω) (t : Turn) (pid : Pid) :
    (w.endTurn c t).1.2.bursts.get? pid =
      if pid = t.pid then (w.bursts.get? pid).map (·.spend t.ran) else w.bursts.get? pid := by
  rw [endTurn_bursts]
  cases found : w.bursts.get? t.pid with
  | none =>
    dsimp only
    split
    · rename_i same
      rw [same, found]
      rfl
    · rfl
  | some burst =>
    rw [Table.get?_insert]
    split
    · rename_i same
      rw [same, found]
      rfl
    · rfl

theorem spawn_bursts {d : SchedClass ω} (made : spawn c profiles = (.ok w, d)) :
    w.bursts = Table.ofList (profiles.map fun p => (p.pid, ⟨p, p.burst⟩)) := by
  unfold spawn at made
  dsimp only at made
  split at made
  · cases made
  · split at made
    · cases made
    · cases made
      rfl

def Sound (profiles : List Profile) (w : Workload) : Prop :=
  ∀ pid burst, w.bursts.get? pid = some burst → burst.Sound profiles

namespace Sound

theorem spawn {d : SchedClass ω} (made : Workload.spawn c profiles = (.ok w, d)) : w.Sound profiles := by
  intro pid burst found
  rw [spawn_bursts made] at found
  obtain ⟨p, member, same⟩ := List.mem_map.mp (Table.mem_of_get?_ofList found)
  cases same
  exact ⟨member, UInt64.le_refl _, id⟩

variable (sound : w.Sound profiles)

include sound

theorem endTurn (c : SchedClass ω) (t : Turn) : (w.endTurn c t).1.2.Sound profiles := by
  intro pid burst found
  rw [endTurn_get?] at found
  split at found
  · obtain ⟨before, here, rfl⟩ := Option.map_eq_some_iff.mp found
    exact (sound pid before here).spend t.ran
  · exact sound pid burst found

theorem endTurns (c : SchedClass ω) (turns : List Turn) : (w.endTurns c turns).1.2.Sound profiles := by
  induction turns generalizing w c with
  | nil => exact sound
  | cons t rest ih =>
    have ended := sound.endTurn c t
    unfold Workload.endTurns
    generalize w.endTurn c t = made at ended ⊢
    obtain ⟨⟨_ | _, v⟩, d⟩ := made
    · exact ended
    · exact ih ended d

theorem step (c : SchedClass ω) : (w.step c).1.2.Sound profiles := by
  unfold Workload.step
  generalize wakeDue c w.sleepers = roused
  obtain ⟨⟨_ | _, sleepers⟩, d⟩ := roused
  · exact sound
  dsimp only
  have kept : Sound profiles { w with sleepers } := sound
  generalize pickTurns { w with sleepers } d (List.range d.cpus) = picked
  obtain ⟨_ | _ | ⟨t, rest⟩, e⟩ := picked
  · exact kept
  · exact kept
  · have ended := kept.endTurns (e.advanceClock (((t :: rest).map (·.ran)).foldl max 0)).2 (t :: rest)
    dsimp only
    generalize Workload.endTurns { w with sleepers } _ (t :: rest) = made at ended ⊢
    obtain ⟨⟨_ | _, v⟩, f⟩ := made <;> exact ended

end Sound

theorem Reached.sound (reached : Reached profiles w c) : w.Sound profiles := by
  induction reached with
  | spawned made => exact .spawn made
  | stepped _ ih => exact ih.step _
  | meanwhile _ _ ih => exact ih

theorem Reached.after (reached : Reached profiles w c) (n : Nat) :
    Reached profiles (w.after c n).1 (w.after c n).2 := by
  induction n with
  | zero => exact reached
  | succ n ih => exact ih.stepped

/-! The turns of a step. -/

theorem pickTurns_turnOf (w : Workload) (c : SchedClass ω) {cpus : List CpuId} {turns : List Turn}
    (picked : (w.pickTurns c cpus).1 = .ok turns) :
    ∀ t ∈ turns, ∃ (d : SchedClass ω) (cpu : CpuId) (pid : Pid), t = w.turnOf d cpu pid := by
  induction cpus generalizing c turns with
  | nil =>
    cases picked
    exact nofun
  | cons cpu rest ih =>
    unfold pickTurns at picked
    generalize c.pickNext cpu = made at picked
    obtain ⟨_ | next, d⟩ := made
    · cases picked
    dsimp only at picked
    have later := fun (others : List Turn) (made : (w.pickTurns d rest).1 = .ok others) => ih d made
    generalize w.pickTurns d rest = ended at picked later
    obtain ⟨_ | others, e⟩ := ended
    · cases picked
    · cases next with
      | none =>
        cases picked
        exact later _ rfl
      | some pid =>
        cases picked
        exact List.forall_mem_cons.mpr ⟨⟨d, cpu, pid, rfl⟩, later _ rfl⟩

theorem mem_turns {t : Turn} (member : t ∈ w.turns c) :
    ∃ (d : SchedClass ω) (cpu : CpuId) (pid : Pid), t = w.turnOf d cpu pid := by
  unfold turns at member
  split at member
  · exact absurd member List.not_mem_nil
  · rename_i sleepers d _
    cases picked : (pickTurns { w with sleepers } d (List.range d.cpus)).1 with
    | error e =>
      rw [picked] at member
      exact absurd member List.not_mem_nil
    | ok made =>
      rw [picked] at member
      exact pickTurns_turnOf { w with sleepers } d picked t member

theorem turnOf_ran_eq_zero_iff (w : Workload) (c : SchedClass ω) (cpu : CpuId) (pid : Pid) :
    (w.turnOf c cpu pid).ran = 0 ↔ ∃ burst, w.bursts.get? pid = some burst ∧ burst.left = 0 := by
  have positive : ((c.task? pid).map fun t => max t.slice 1).getD 1 ≠ 0 := by
    cases c.task? pid with
    | none => exact nofun
    | some task =>
      have most : (1 : Nanos) ≤ max task.slice 1 := Usage.right_le_max
      intro zero
      rw [Option.map_some, Option.getD_some] at zero
      rw [zero] at most
      exact absurd most (by decide)
  unfold turnOf
  dsimp only
  generalize ((c.task? pid).map fun t => max t.slice 1).getD 1 = slice at positive
  have least : ∀ left : Nanos, min left slice = 0 ↔ left = 0 := by
    intro left
    have split : min left slice = if left ≤ slice then left else slice := rfl
    rw [split]
    split
    · rfl
    · rename_i above
      refine iff_of_false positive fun zero => above (zero ▸ UInt64.zero_le)
  cases w.bursts.get? pid with
  | none => simp [least, positive]
  | some burst => simp [least]

theorem idleTime_ne_zero (w : Workload) (now : Nanos) : w.idleTime now ≠ 0 := by
  unfold idleTime
  split
  · decide
  · rename_i s _ _
    have most : (1 : Nanos) ≤ max (subSat s.due now) 1 := Usage.right_le_max
    intro zero
    rw [zero] at most
    exact absurd most (by decide)

theorem Sound.stands_still_iff (sound : w.Sound profiles) {report : StepReport}
    (ok : (w.step c).1.1 = .ok report) : report.elapsed = 0 ↔ w.turns c ≠ [] ∧
      ∀ t ∈ w.turns c, ∃ burst, w.bursts.get? t.pid = some burst ∧ burst.profile ∈ profiles ∧
        burst.profile.burst = 0 := by
  have empties : ∀ t ∈ w.turns c, t.ran = 0 ↔ ∃ burst, w.bursts.get? t.pid = some burst ∧
      burst.profile ∈ profiles ∧ burst.profile.burst = 0 := by
    intro t member
    obtain ⟨d, cpu, pid, rfl⟩ := mem_turns member
    rw [turnOf_ran_eq_zero_iff]
    constructor
    · rintro ⟨burst, found, left⟩
      have fine := sound pid burst found
      exact ⟨burst, found, fine.profile, fine.some left⟩
    · rintro ⟨burst, found, _, empty⟩
      exact ⟨burst, found, (sound pid burst found).left_eq_zero_iff.mpr empty⟩
  obtain ⟨_, _, ⟨nobody, v, idle⟩ | ⟨somebody, longest⟩⟩ := step_reports ok
  · rw [idle]
    exact iff_of_false (v.idleTime_ne_zero _) fun ⟨somebody, _⟩ => somebody nobody
  · have zero : report.elapsed = 0 ↔ report.elapsed ≤ 0 :=
      ⟨fun zero => zero ▸ UInt64.le_refl _, fun least => UInt64.le_antisymm least UInt64.zero_le⟩
    rw [zero, longest, Usage.foldl_max_le_iff, and_iff_right (UInt64.le_refl _), List.forall_mem_map,
      and_iff_right somebody]
    refine forall₂_congr fun t member => ?_
    rw [← empties t member]
    exact ⟨fun least => UInt64.le_antisymm least UInt64.zero_le, fun zero => zero ▸ UInt64.le_refl _⟩

/-! Runs to a deadline. -/

/-- If every step that succeeds before the deadline moves the clock on, there are no more steps than
nanoseconds. -/
theorem runUntil_ends {deadline : Nanos}
    (moves : ∀ n report, (∀ k ≤ n, (w.after c k).2.clock < deadline) →
      ((w.after c n).1.step (w.after c n).2).1.1 = .ok report →
        (w.after c n).2.clock < (w.after c (n + 1)).2.clock)
    {fuel : Nat} (enough : deadline.toNat - c.clock.toNat < fuel) (steps : Nat) :
    ∃ n ≤ deadline.toNat - c.clock.toNat,
      (∀ k < n, (w.after c k).2.clock < deadline ∧
        ∃ report, ((w.after c k).1.step (w.after c k).2).1.1 = .ok report) ∧
      ((deadline ≤ (w.after c n).2.clock ∧
          runUntil deadline fuel steps w c = ((.reached (steps + n), (w.after c n).1), (w.after c n).2)) ∨
        ∃ e, (w.after c n).2.clock < deadline ∧ ((w.after c n).1.step (w.after c n).2).1.1 = .error e ∧
          runUntil deadline fuel steps w c = ((.failed e, (w.after c (n + 1)).1), (w.after c (n + 1)).2)) := by
  induction fuel generalizing w c steps with
  | zero => exact absurd enough (Nat.not_lt_zero _)
  | succ fuel ih =>
    unfold runUntil
    by_cases early : c.clock < deadline
    · rw [if_pos early]
      have first : ∀ k ≤ 0, (w.after c k).2.clock < deadline := fun k none => by
        rw [Nat.le_zero.mp none]
        exact early
      have next : w.after c 1 = ((w.step c).1.2, (w.step c).2) := rfl
      cases outcome : (w.step c).1.1 with
      | error e =>
        refine ⟨0, Nat.zero_le _, nofun, .inr ⟨e, early, outcome, ?_⟩⟩
        rw [next]
        generalize w.step c = made at outcome
        obtain ⟨⟨_, v⟩, d⟩ := made
        cases outcome
        rfl
      | ok report =>
        have moved : c.clock < (w.step c).2.clock := moves 0 report first outcome
        have moved' := UInt64.lt_iff_toNat_lt.mp moved
        have early' := UInt64.lt_iff_toNat_lt.mp early
        obtain ⟨n, bound, succeed, ends⟩ := ih (w := (w.step c).1.2) (c := (w.step c).2)
          (fun n report before ok => by
            rw [← after_succ] at ok
            rw [← after_succ, ← after_succ]
            refine moves (n + 1) report (fun k upto => ?_) ok
            cases k with
            | zero => exact early
            | succ k => rw [after_succ]; exact before k (Nat.le_of_succ_le_succ upto))
          (by omega) (steps + 1)
        refine ⟨n + 1, by omega, fun k below => ?_, ?_⟩
        · cases k with
          | zero => exact ⟨early, report, outcome⟩
          | succ k =>
            rw [after_succ]
            exact succeed k (Nat.lt_of_succ_lt_succ below)
        · have count : steps + 1 + n = steps + (n + 1) := by omega
          rw [after_succ w c n, after_succ w c (n + 1), ← count]
          generalize w.step c = made at outcome ends ⊢
          obtain ⟨⟨_, v⟩, d⟩ := made
          cases outcome
          exact ends
    · rw [if_neg early]
      exact ⟨0, Nat.zero_le _, nofun, .inl ⟨UInt64.not_lt.mp early, rfl⟩⟩

/-- Whatever the policy and however the workload came here, a step that succeeds moves the clock by exactly what
it reports, which is nothing just if there are turns and all of them are of tasks that run in empty bursts. If no
task of the workload does and the clock does not wrap, a run for a duration makes as many successful steps as
that has nanoseconds at most, and ends with a clock at the deadline or later, or with the first step that fails. -/
theorem workload_progresses_unless_bursts_are_empty (reached : Reached profiles w c) :
    (∀ report, (w.step c).1.1 = .ok report → (w.step c).2.clock = c.clock + report.elapsed ∧
      (report.elapsed = 0 ↔ w.turns c ≠ [] ∧ ∀ t ∈ w.turns c, ∃ burst, w.bursts.get? t.pid = some burst ∧
        burst.profile ∈ profiles ∧ burst.profile.burst = 0)) ∧
    ((∀ p ∈ profiles, p.burst ≠ 0) → ∀ duration : Nanos,
      let deadline := addSat c.clock duration
      (∀ n report, (∀ k ≤ n, (w.after c k).2.clock < deadline) →
        ((w.after c n).1.step (w.after c n).2).1.1 = .ok report →
          (w.after c n).2.clock.toNat + report.elapsed.toNat < 2 ^ 64) →
      ∃ n ≤ duration.toNat,
        (∀ k < n, (w.after c k).2.clock < deadline ∧
          ∃ report, ((w.after c k).1.step (w.after c k).2).1.1 = .ok report) ∧
        ((deadline ≤ (w.after c n).2.clock ∧
            w.runFor c duration = ((.reached n, (w.after c n).1), (w.after c n).2)) ∨
          ∃ e, (w.after c n).2.clock < deadline ∧ ((w.after c n).1.step (w.after c n).2).1.1 = .error e ∧
            w.runFor c duration = ((.failed e, (w.after c (n + 1)).1), (w.after c (n + 1)).2))) := by
  refine ⟨fun report ok => ⟨(step_reports ok).2.1, reached.sound.stands_still_iff ok⟩, ?_⟩
  intro filled duration deadline fits
  have moves : ∀ n report, (∀ k ≤ n, (w.after c k).2.clock < deadline) →
      ((w.after c n).1.step (w.after c n).2).1.1 = .ok report →
        (w.after c n).2.clock < (w.after c (n + 1)).2.clock := by
    intro n report before ok
    have inside := fits n report before ok
    have moved : (w.after c (n + 1)).2.clock = (w.after c n).2.clock + report.elapsed := (step_reports ok).2.1
    have some_time : report.elapsed ≠ 0 := by
      rw [ne_eq, (reached.after n).sound.stands_still_iff ok]
      rintro ⟨somebody, all⟩
      obtain ⟨t, member⟩ := List.exists_mem_of_ne_nil _ somebody
      obtain ⟨burst, _, known, empty⟩ := all t member
      exact filled _ known empty
    have positive : 0 < report.elapsed.toNat :=
      Nat.pos_of_ne_zero fun zero => some_time (UInt64.toNat_inj.mp zero)
    rw [UInt64.lt_iff_toNat_lt, moved, UInt64.toNat_add, Nat.mod_eq_of_lt inside]
    exact Nat.lt_add_of_pos_right positive
  have near : deadline.toNat - c.clock.toNat ≤ duration.toNat := by
    rw [addSat_toNat]
    omega
  have enough : deadline.toNat - c.clock.toNat < stepLimit :=
    Nat.lt_of_le_of_lt (Nat.sub_le _ _) deadline.toNat_lt
  obtain ⟨n, bound, succeed, ends⟩ := runUntil_ends moves enough 0
  rw [Nat.zero_add] at ends
  exact ⟨n, Nat.le_trans bound near, succeed, ends⟩

/-- A task that never sleeps and runs in empty bursts: a step picks it and reports no time, and the clock stands
still. -/
theorem empty_burst_stands_still :
    let start := spawn (SchedClass.new 1 ()) [⟨1, 100, 0, 0⟩]
    let w : Workload := ⟨Table.ofList [(1, ⟨⟨1, 100, 0, 0⟩, 0⟩)], []⟩
    start.1.toOption.map (·.bursts) = some w.bursts ∧ (w.step start.2).1.1.toOption = some ⟨1, 0⟩ ∧
      (w.step start.2).2.clock = start.2.clock ∧ (runUntil 1 20 0 w start.2).1.1 = .exhausted := by
  refine ⟨rfl, ?_, ?_, ?_⟩ <;> decide +kernel

/-- A task of a short burst runs for it in one step, and in the next the clock moves on to its wake-up. -/
theorem short_burst_reaches_deadline :
    let start := spawn (SchedClass.new 1 ()) [Profile.ioBound 9]
    ∃ w c, start = (.ok w, c) ∧ (∀ p ∈ [Profile.ioBound 9], p.burst ≠ 0) ∧
      (w.runFor c 2100000).1.1 = .reached 2 ∧ (w.after c 2).2.clock = 2100000 := by
  intro start
  let w : Workload := ⟨Table.ofList [(9, ⟨Profile.ioBound 9, 100000⟩)], []⟩
  let c := start.2
  have made : start = (.ok w, c) := rfl
  have filled : ∀ p ∈ [Profile.ioBound 9], p.burst ≠ 0 := by decide
  have last : (w.after c 2).2.clock = 2100000 := by decide +kernel
  have first : ((w.after c 0).1.step (w.after c 0).2).1.1.toOption = some ⟨1, 100000⟩ := by decide +kernel
  have second : ((w.after c (0 + 1)).1.step (w.after c (0 + 1)).2).1.1.toOption = some ⟨0, 2000000⟩ := by
    decide +kernel
  have late : ¬ (w.after c 2).2.clock < addSat c.clock 2100000 := by decide +kernel
  have fits : ∀ n report, (∀ k ≤ n, (w.after c k).2.clock < addSat c.clock 2100000) →
      ((w.after c n).1.step (w.after c n).2).1.1 = .ok report →
        (w.after c n).2.clock.toNat + report.elapsed.toNat < 2 ^ 64 := by
    intro n report before ok
    obtain _ | _ | n := n
    · rw [ok] at first
      cases first
      decide +kernel
    · rw [ok] at second
      cases second
      decide +kernel
    · exact absurd (before 2 (Nat.le_add_left 2 n)) late
  obtain ⟨n, _, succeed, ends⟩ :=
    (workload_progresses_unless_bursts_are_empty (.spawned made)).2 filled 2100000 fits
  have upto : n ≤ 2 := Nat.le_of_not_lt fun later => late (succeed 2 later).1
  refine ⟨w, c, made, filled, ?_, last⟩
  rcases ends with ⟨late_enough, ends⟩ | ⟨e, early, failed, _⟩
  · rw [ends]
    obtain _ | _ | _ | n := n
    · exact absurd late_enough (by decide +kernel)
    · exact absurd late_enough (by decide +kernel)
    · rfl
    · omega
  · obtain _ | _ | _ | n := n
    · rw [failed] at first
      cases first
    · rw [failed] at second
      cases second
    · exact absurd early late
    · omega

end Workload

end LoadableSched
