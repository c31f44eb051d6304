import LoadableSched.Proofs.Workload.Driving
import LoadableSched.Proofs.Workload.Progressing
import LoadableSched.Proofs.Workload.Running
import LoadableSched.Workload.Overflow

/-!
The steps of a workload in which a sum of times is beyond the greatest word: those that move the clock over it,
and those in which a task falls asleep that is due after it.
-/

namespace LoadableSched

open SchedClass (Operation)

theorem exceedsWord_iff (a b : Nanos) : exceedsWord a b = true ↔ UInt64.size ≤ a.toNat + b.toNat := by
  simp [exceedsWord]

namespace Workload

variable {ω : Type} {profiles : List Profile} {w v : Workload} {c d : SchedClass ω} {turns : List Turn}

theorem staysRunnable_congr {t : Turn} (same : v.bursts.get? t.pid = w.bursts.get? t.pid) :
    v.staysRunnable t = w.staysRunnable t := by
  unfold staysRunnable
  rw [same]

theorem endTurn_asleep_iff (tends : Tends profiles w c) {t : Turn} (here : c.current? t.cpu = some t.pid)
    (pid : Pid) : (w.endTurn c t).2.state? pid = some .sleeping ↔
      c.state? pid = some .sleeping ∨ t.pid = pid ∧ w.staysRunnable t = false := by
  have states := (tends.steady.stops here t.ran (w.staysRunnable t)).2.2.2 pid
  have ended : (w.endTurn c t).2 = (c.stop t.cpu t.ran (w.staysRunnable t)).2 := w.endTurn_class c t
  have awake : c.state? t.pid ≠ some .sleeping := by
    rw [tends.running here]
    rintro ⟨⟩
  rw [ended, states]
  by_cases same : pid = t.pid
  · cases w.staysRunnable t <;> simp [same, awake]
  · simp [same, Ne.symm same]

theorem stopOperations_eq (tends : Tends profiles w c) (here : ∀ t ∈ turns, c.current? t.cpu = some t.pid)
    (apart : (turns.map (·.cpu)).Nodup) :
    w.stopOperations c turns = turns.map (fun t => .stop t.cpu t.ran (w.staysRunnable t)) ∧
      ∀ pid, (w.endTurns c turns).2.state? pid = some .sleeping ↔
        c.state? pid = some .sleeping ∨ ∃ t ∈ turns, t.pid = pid ∧ w.staysRunnable t = false := by
  induction turns generalizing w c with
  | nil => simp [stopOperations, endTurns]
  | cons t rest ih =>
    obtain ⟨new, apart⟩ := List.nodup_cons.mp apart
    have mine := here t List.mem_cons_self
    obtain ⟨result, ends⟩ := endTurn_ends tends mine
    have first := endTurn_asleep_iff tends mine
    have bursts := w.endTurn_get? c t
    unfold stopOperations endTurns
    generalize w.endTurn c t = made at result ends first bursts
    obtain ⟨⟨_, v⟩, d⟩ := made
    cases result
    have stays : ∀ later ∈ rest, v.staysRunnable later = w.staysRunnable later := by
      intro later member
      refine staysRunnable_congr ((bursts later.pid).trans (if_neg fun same => ?_))
      have there := here later (List.mem_cons_of_mem _ member)
      have one := tends.steady.healthy.held.on_one there (same ▸ mine)
      exact new (List.mem_map.mpr ⟨later, member, one⟩)
    obtain ⟨operations, sleeps⟩ := ih ends.tends (ends.later here new) apart
    constructor
    · rw [List.map_cons]
      refine congrArg _ (operations.trans (List.map_congr_left fun later member => ?_))
      rw [stays later member]
    · intro pid
      have after : (∃ later ∈ rest, later.pid = pid ∧ v.staysRunnable later = false) ↔
          ∃ later ∈ rest, later.pid = pid ∧ w.staysRunnable later = false :=
        exists_congr fun later => and_congr_right fun member => by rw [stays later member]
      dsimp only
      rw [sleeps, first, after, List.exists_mem_cons_iff, or_assoc]

theorem step_turns (tends : Tends profiles w c) :
    ∃ elapsed : Nanos, (w.step c).1.1 = .ok ⟨(w.turns c).length, elapsed⟩ ∧
      (∃ early : List (Operation ω),
        (∀ op ∈ early, (∃ pid, op = .wake pid wakeRunnable) ∨ ∃ cpu, op = .pickNext cpu) ∧
        w.operations c = early ++ .advanceClock elapsed ::
          (w.turns c).map fun t => .stop t.cpu t.ran (w.staysRunnable t)) ∧
      ((w.turns c).map (·.cpu)).Nodup ∧
      ∀ pid, w.FallsAsleep c pid ↔ ∃ t ∈ w.turns c, t.pid = pid ∧ w.staysRunnable t = false := by
  obtain ⟨result, wakes⟩ := wakeDue_wakes tends.steady tends.sleeps
  have woken := tends.wakes wakes
  have wake := wakeOperations_wake c w.sleepers
  unfold FallsAsleep stateOnceWoken step operations turns
  generalize wakeDue c w.sleepers = roused at *
  obtain ⟨⟨_, sleepers⟩, d⟩ := roused
  cases result
  dsimp only at *
  obtain ⟨turns, result, picks⟩ := pickTurns_picks
    { w with sleepers := w.sleepers.filter (c.clock < ·.due) } wakes.steady
    (fun cpu => List.mem_range.mp) (List.nodup_range (n := d.cpus))
  have tended := woken.picks picks
  have pick := pickOperations_pick d (List.range d.cpus)
  have distinct := picks.order.nodup List.nodup_range
  generalize pickTurns _ d (List.range d.cpus) = made at *
  obtain ⟨_, e⟩ := made
  cases result
  dsimp only at *
  have early : ∀ op ∈ wakeOperations c w.sleepers ++ pickOperations d (List.range d.cpus),
      (∃ pid, op = .wake pid wakeRunnable) ∨ ∃ cpu, op = .pickNext cpu := by
    intro op member
    exact (List.mem_append.mp member).imp (wake op) (pick op)
  cases turns with
  | nil =>
    refine ⟨_, rfl, ⟨_, early, (List.append_assoc ..).symm⟩, .nil, fun pid => ?_⟩
    exact iff_of_false (fun ⟨awake, slept⟩ => awake ((picks.asleep_iff pid).mp slept)) fun ⟨_, nobody, _⟩ =>
      List.not_mem_nil nobody
  | cons t rest =>
    dsimp only
    generalize ((t :: rest).map (·.ran)).foldl max 0 = elapsed
    have moved := tended.advanceClock elapsed
    obtain ⟨operations, sleeps⟩ := stopOperations_eq moved picks.here distinct
    have result := (endTurns_ends moved picks.here distinct).1
    generalize endTurns _ _ (t :: rest) = ended at sleeps result ⊢
    obtain ⟨⟨_, v⟩, f⟩ := ended
    cases result
    rw [operations]
    refine ⟨elapsed, rfl, ⟨_, early, (List.append_assoc ..).symm⟩, distinct, fun pid => ?_⟩
    have running : ∀ t' ∈ t :: rest, d.state? t'.pid ≠ some .sleeping := by
      intro t' member
      rw [ne_eq, ← picks.asleep_iff, tended.running (picks.here t' member)]
      rintro ⟨⟩
    constructor
    · rintro ⟨awake, slept⟩
      exact ((sleeps pid).mp slept).resolve_left fun before => awake ((picks.asleep_iff pid).mp before)
    · rintro ⟨t', member, rfl, stops⟩
      exact ⟨running t' member, (sleeps _).mpr (.inr ⟨t', member, rfl, stops⟩)⟩

theorem napOn?_eq (w : Workload) (distinct : (turns.map (·.cpu)).Nodup) {t : Turn} (member : t ∈ turns) :
    w.napOn? turns t.cpu = (w.bursts.get? t.pid).map (·.profile.sleep) := by
  have first : turns.find? (·.cpu = t.cpu) = some t := Table.find?_of_distinct distinct member
  rw [napOn?, first, Option.bind_some]

theorem exceeds_stop_iff (w : Workload) (distinct : (turns.map (·.cpu)).Nodup) {t : Turn} (member : t ∈ turns)
    (before after : Nanos) (runnable : Bool) :
    w.exceeds (ω := ω) turns before after (.stop t.cpu t.ran runnable) = true ↔
      runnable = false ∧ ∃ burst, w.bursts.get? t.pid = some burst ∧
        UInt64.size ≤ after.toNat + burst.profile.sleep.toNat := by
  cases runnable with
  | true => simp [exceeds]
  | false => simp [exceeds, w.napOn?_eq distinct member, Option.any_eq_true, exceedsWord_iff]

/-- A sum is beyond the greatest word in exactly those steps that move the clock over it or send a task to sleep
that is due after it. -/
theorem overflows_iff (tends : Tends profiles w c) : w.overflows c = true ↔
    (∃ report, (w.step c).1.1 = .ok report ∧ UInt64.size ≤ c.clock.toNat + report.elapsed.toNat) ∨
      ∃ p ∈ profiles, w.FallsAsleep c p.pid ∧ UInt64.size ≤ (w.step c).2.clock.toNat + p.sleep.toNat := by
  obtain ⟨elapsed, ok, ⟨early, quiet, operations⟩, distinct, falls⟩ := step_turns tends
  have still : early.any (w.exceeds (w.turns c) c.clock (w.step c).2.clock) = false := by
    refine List.any_eq_false.mpr fun op member => ?_
    rcases quiet op member with ⟨pid, rfl⟩ | ⟨cpu, rfl⟩ <;> exact Bool.false_ne_true
  rw [overflows, operations, List.any_append, still, Bool.false_or, List.any_cons, Bool.or_eq_true, exceeds,
    exceedsWord_iff, List.any_map, List.any_eq_true]
  refine or_congr (by simp [ok]) ?_
  constructor
  · rintro ⟨t, member, long⟩
    obtain ⟨asleep, burst, found, long⟩ := (w.exceeds_stop_iff distinct member _ _ _).mp long
    obtain ⟨known, same⟩ := tends.own t.pid burst found
    exact ⟨burst.profile, known, (falls _).mpr ⟨t, member, same.symm, asleep⟩, long⟩
  · rintro ⟨p, known, asleep, long⟩
    obtain ⟨t, member, same, asleep⟩ := (falls p.pid).mp asleep
    obtain ⟨left, found⟩ := tends.known p known
    exact ⟨t, member, (w.exceeds_stop_iff distinct member _ _ _).mpr ⟨asleep, ⟨p, left⟩, same ▸ found, long⟩⟩

/-- A workload of distinct new tasks on a class that only ever had policies that come with the host, or
none, never loses a task: whatever the class did before, as long as only the workload drives it from now on.
A task that falls asleep rests exactly as long as its profile says if the time that it is due is a word; if it
is not, the sum wraps, and the next step wakes the task, or the program stops there if it checks its sums. -/
theorem no_task_lost_unless_due_wraps (cpus : Nat) (memory : Memory) (ops : List (SchedClass.Operation Memory))
    (ships : ∀ op ∈ ops, op.Ships) (profiles : List Profile) (distinct : (profiles.map (·.pid)).Nodup)
    (fresh : ∀ p ∈ profiles, ((SchedClass.new cpus memory).steps ops).state? p.pid = none) :
    ∃ w c, spawn ((SchedClass.new cpus memory).steps ops) profiles = (.ok w, c) ∧ KeepsAll profiles w c ∧
      ∀ n, ∀ p ∈ profiles, (w.after c n).1.FallsAsleep (w.after c n).2 p.pid →
        (w.Rests c n p ↔ w.due c n p < UInt64.size) ∧
        (UInt64.size ≤ w.due c n p →
          (w.after c (n + 1)).1.stateOnceWoken (w.after c (n + 1)).2 p.pid = some .queued ∧
            (w.after c n).1.overflows (w.after c n).2 = true) := by
  have steady := SchedClass.Steady.run cpus memory fun op member => (ships op member).conforms
  obtain ⟨w, c, spawned, tends, queued⟩ := spawn_tends steady distinct fresh
  refine ⟨w, c, spawned, tends.keepsAll queued, fun n p member falls => ⟨tends.rests_iff member falls, ?_⟩⟩
  intro long
  constructor
  · exact tends.woken_at_once member falls long
  · exact (overflows_iff (after_tends tends n)).mpr (.inr ⟨p, member, falls, long⟩)

def started (profiles : List Profile) : Workload :=
  ⟨Table.ofList (profiles.map fun p => (p.pid, ⟨p, p.burst⟩)), []⟩

/-- A task that never sleeps and one of short bursts, on a processor each: the second falls asleep in the
first step and is not yet due when the second begins, but when the third does. -/
theorem mixed_load_rests :
    (∀ op ∈ [SchedClass.Operation.install (Fifo.policy Memory)], op.Ships) ∧
      ((Profile.mixed 1 2).map (·.pid)).Nodup ∧
      (∀ p ∈ Profile.mixed 1 2, pair.state? p.pid = none) ∧
      ∃ w c, spawn pair (Profile.mixed 1 2) = (.ok w, c) ∧ KeepsAll (Profile.mixed 1 2) w c ∧
        w.FallsAsleep c 2 ∧ w.Rests c 0 (.ioBound 2) ∧
        (w.after c 1).1.stateOnceWoken (w.after c 1).2 2 = some .sleeping ∧
        (w.after c 2).1.stateOnceWoken (w.after c 2).2 2 = some .queued := by
  have ships : ∀ op ∈ [SchedClass.Operation.install (Fifo.policy Memory)], op.Ships := by
    intro op member
    cases List.mem_singleton.mp member
    exact .fifo
  have distinct : ((Profile.mixed 1 2).map (·.pid)).Nodup := by decide
  have fresh : ∀ p ∈ Profile.mixed 1 2, pair.state? p.pid = none := by decide
  obtain ⟨w, c, spawned, keeps, rests⟩ := no_task_lost_unless_due_wraps 2 Memory.empty _ ships _ distinct fresh
  have made : spawn pair (Profile.mixed 1 2) =
      (.ok (started (Profile.mixed 1 2)), (spawn pair (Profile.mixed 1 2)).2) := rfl
  cases made.symm.trans spawned
  have falls : (started (Profile.mixed 1 2)).FallsAsleep (spawn pair (Profile.mixed 1 2)).2 2 := by
    unfold FallsAsleep
    decide +kernel
  have fits := (rests 0 (.ioBound 2) (by decide) falls).1.mpr (by decide +kernel)
  refine ⟨ships, distinct, fresh, _, _, spawned, keeps, falls, fits, ?_, ?_⟩ <;> decide +kernel

def longSleep : Profile := ⟨1, 100, 1, UInt64.ofNat maxWord⟩

/-- It falls asleep when the clock is at one nanosecond, and the step that begins then wakes it, while another
task goes on for the whole of its slice. -/
theorem long_sleep_ends_at_once :
    let profiles := [longSleep, .cpuBound 2]
    let c := (spawn (SchedClass.new 1 Memory.empty) profiles).2
    let w := started profiles
    spawn (SchedClass.new 1 Memory.empty) profiles = (.ok w, c) ∧ w.FallsAsleep c 1 ∧
      (w.after c 1).2.clock = 1 ∧ w.due c 0 longSleep = UInt64.size ∧
      (w.after c 1).1.stateOnceWoken (w.after c 1).2 1 = some .queued ∧ (w.after c 2).2.clock = 20000001 ∧
      w.overflows c = true ∧ ¬ w.Rests c 0 longSleep := by
  intro profiles c w
  have falls : w.FallsAsleep c 1 := by
    unfold FallsAsleep
    decide +kernel
  have woken : (w.after c 1).1.stateOnceWoken (w.after c 1).2 1 = some .queued := by decide +kernel
  have early : ¬ w.due c 0 longSleep ≤ (w.after c 1).2.clock.toNat := by decide +kernel
  refine ⟨rfl, falls, by decide +kernel, by decide +kernel, woken, by decide +kernel, by decide +kernel, ?_⟩
  intro rests
  have asleep := (rests 1 Nat.zero_lt_one fun k above below => absurd below (by omega)).2
  rw [if_neg early] at asleep
  cases woken.symm.trans asleep

theorem runOverflows_iff (deadline : Nanos) (fuel : Nat) : runOverflows deadline fuel w c = true ↔
    ∃ n < fuel, (∀ k < n, (w.after c k).2.clock < deadline ∧
        ∃ report, ((w.after c k).1.step (w.after c k).2).1.1 = .ok report) ∧
      (w.after c n).2.clock < deadline ∧ (w.after c n).1.overflows (w.after c n).2 = true := by
  induction fuel generalizing w c with
  | zero => simp [runOverflows]
  | succ fuel ih =>
    have first : w.after c 0 = (w, c) := rfl
    unfold runOverflows
    rw [Nat.exists_lt_succ_left]
    simp only [Nat.forall_lt_succ_left, after_succ, first, Nat.not_lt_zero, false_implies, implies_true, true_and]
    by_cases late : ¬ c.clock < deadline
    · simp [late]
    have early : c.clock < deadline := Decidable.not_not.mp late
    rw [if_pos early, Bool.or_eq_true]
    refine or_congr (by simp [early]) ?_
    cases outcome : (w.step c).1.1 with
    | error e =>
      generalize w.step c = made at outcome
      obtain ⟨⟨_, v⟩, d⟩ := made
      cases outcome
      simp
    | ok report =>
      have next := ih (w := (w.step c).1.2) (c := (w.step c).2)
      generalize w.step c = made at outcome next ⊢
      obtain ⟨⟨_, v⟩, d⟩ := made
      cases outcome
      simpa [early] using next

end Workload

end LoadableSched
