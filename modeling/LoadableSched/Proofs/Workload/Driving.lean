import LoadableSched.Proofs.Class.Lasting
import LoadableSched.Workload.Operations

/-!
A step of a workload drives the class by its operations and by nothing else. Of these only one moves the clock,
so that a step that succeeds moves it by what it reports.
-/

namespace LoadableSched.Workload

open SchedClass (Operation)

variable {ω : Type} {w : Workload} {c : SchedClass ω}

/-! The class after the parts of a step. -/

theorem wakeDue_class (c : SchedClass ω) (line : List Sleeper) :
    (wakeDue c line).2 = c.steps (wakeOperations c line) := by
  induction line generalizing c with
  | nil => rfl
  | cons s rest ih =>
    unfold wakeDue wakeOperations
    split
    · rfl
    · have woken : c.step (.wake s.pid wakeRunnable) = (c.wake s.pid wakeRunnable).2 := rfl
      rw [SchedClass.steps, woken]
      generalize c.wake s.pid wakeRunnable = made
      obtain ⟨_ | _, d⟩ := made
      · rfl
      · exact ih d

theorem pickTurns_class (w : Workload) (c : SchedClass ω) (cpus : List CpuId) :
    (w.pickTurns c cpus).2 = c.steps (pickOperations c cpus) := by
  induction cpus generalizing c with
  | nil => rfl
  | cons cpu rest ih =>
    have picked : c.step (.pickNext cpu) = (c.pickNext cpu).2 := rfl
    unfold pickTurns pickOperations
    rw [SchedClass.steps, picked]
    generalize c.pickNext cpu = made
    obtain ⟨_ | next, d⟩ := made
    · rfl
    · have later := ih d
      dsimp only
      generalize w.pickTurns d rest = ended at later ⊢
      obtain ⟨_ | turns, e⟩ := ended
      · exact later
      · cases next <;> exact later

theorem endTurn_class (w : Workload) (c : SchedClass ω) (t : Turn) :
    (w.endTurn c t).2 = c.step (.stop t.cpu t.ran (w.staysRunnable t)) := by
  change (w.endTurn c t).2 = (c.stop t.cpu t.ran (w.staysRunnable t)).2
  unfold endTurn staysRunnable
  cases w.bursts.get? t.pid with
  | none =>
    dsimp only
    generalize c.stop t.cpu t.ran false = made
    obtain ⟨_ | _, d⟩ := made <;> rfl
  | some burst =>
    dsimp only
    split
    · rename_i finished
      rw [finished, Bool.not_true]
      generalize c.stop t.cpu t.ran false = made
      obtain ⟨_ | _, d⟩ := made <;> rfl
    · rename_i goes
      rw [Bool.not_eq_true] at goes
      rw [goes, Bool.not_false]
      generalize c.stop t.cpu t.ran true = made
      obtain ⟨_ | _, d⟩ := made <;> rfl

theorem endTurns_class (w : Workload) (c : SchedClass ω) (turns : List Turn) :
    (w.endTurns c turns).2 = c.steps (w.stopOperations c turns) := by
  induction turns generalizing w c with
  | nil => rfl
  | cons t rest ih =>
    unfold endTurns stopOperations
    rw [SchedClass.steps, ← endTurn_class w c t]
    generalize w.endTurn c t = ended
    obtain ⟨⟨_ | _, v⟩, d⟩ := ended
    · rfl
    · exact ih v d

theorem step_class (w : Workload) (c : SchedClass ω) : (w.step c).2 = c.steps (w.operations c) := by
  unfold step operations
  rw [SchedClass.steps_append, ← wakeDue_class]
  generalize wakeDue c w.sleepers = roused
  obtain ⟨⟨_ | _, sleepers⟩, d⟩ := roused
  · rfl
  dsimp only
  rw [SchedClass.steps_append, ← pickTurns_class { w with sleepers }]
  generalize pickTurns { w with sleepers } d (List.range d.cpus) = picked
  obtain ⟨_ | _ | ⟨t, rest⟩, e⟩ := picked
  · rfl
  · rfl
  · dsimp only
    generalize ((t :: rest).map (·.ran)).foldl max 0 = elapsed
    have ended := endTurns_class { w with sleepers } (e.advanceClock elapsed).2 (t :: rest)
    have moved : e.step (.advanceClock elapsed) = (e.advanceClock elapsed).2 := rfl
    rw [SchedClass.steps, moved, ← ended]
    generalize endTurns { w with sleepers } _ (t :: rest) = made
    obtain ⟨⟨_ | _, v⟩, f⟩ := made <;> rfl

theorem after_class (w : Workload) (c : SchedClass ω) (n : Nat) :
    (w.after c n).2 = c.steps (w.history c n) := by
  induction n with
  | zero => rfl
  | succ n ih =>
    rw [history, SchedClass.steps_append, ← ih]
    exact step_class _ _

theorem after_succ (w : Workload) (c : SchedClass ω) (n : Nat) :
    w.after c (n + 1) = (w.step c).1.2.after (w.step c).2 n := by
  induction n with
  | zero => rfl
  | succ n ih =>
    have next : w.after c (n + 1 + 1) = Prod.map (·.2) id ((w.after c (n + 1)).1.step (w.after c (n + 1)).2) := rfl
    rw [next, ih]
    rfl

/-! The clock. -/

theorem wakeOperations_wake (c : SchedClass ω) (line : List Sleeper) :
    ∀ op ∈ wakeOperations c line, ∃ pid, op = .wake pid wakeRunnable := by
  induction line generalizing c with
  | nil => simp [wakeOperations]
  | cons s rest ih =>
    unfold wakeOperations
    split
    · simp
    · refine List.forall_mem_cons.mpr ⟨⟨s.pid, rfl⟩, ?_⟩
      split
      · simp
      · exact ih _

theorem pickOperations_pick (c : SchedClass ω) (cpus : List CpuId) :
    ∀ op ∈ pickOperations c cpus, ∃ cpu, op = .pickNext cpu := by
  induction cpus generalizing c with
  | nil => simp [pickOperations]
  | cons cpu rest ih =>
    unfold pickOperations
    refine List.forall_mem_cons.mpr ⟨⟨cpu, rfl⟩, ?_⟩
    split
    · simp
    · exact ih _

theorem stopOperations_unmoved (w : Workload) (c : SchedClass ω) (turns : List Turn) :
    ∀ op ∈ w.stopOperations c turns, ∀ delta, op ≠ .advanceClock delta := by
  induction turns generalizing w c with
  | nil => simp [stopOperations]
  | cons t rest ih =>
    unfold stopOperations
    refine List.forall_mem_cons.mpr ⟨nofun, ?_⟩
    split
    · simp
    · exact ih _ _

theorem wakeDue_clock (c : SchedClass ω) (line : List Sleeper) : (wakeDue c line).2.clock = c.clock := by
  rw [wakeDue_class]
  refine c.steps_clock fun op member => ?_
  obtain ⟨pid, rfl⟩ := wakeOperations_wake c line op member
  exact fun _ => nofun

theorem pickTurns_clock (w : Workload) (c : SchedClass ω) (cpus : List CpuId) :
    (w.pickTurns c cpus).2.clock = c.clock := by
  rw [pickTurns_class]
  refine c.steps_clock fun op member => ?_
  obtain ⟨cpu, rfl⟩ := pickOperations_pick c cpus op member
  exact fun _ => nofun

theorem endTurns_clock (w : Workload) (c : SchedClass ω) (turns : List Turn) :
    (w.endTurns c turns).2.clock = c.clock := by
  rw [endTurns_class]
  exact c.steps_clock (stopOperations_unmoved w c turns)

theorem step_reports {report : StepReport} (ok : (w.step c).1.1 = .ok report) :
    report.ran = (w.turns c).length ∧ (w.step c).2.clock = c.clock + report.elapsed ∧
      ((w.turns c = [] ∧ ∃ v : Workload, report.elapsed = v.idleTime c.clock) ∨
        w.turns c ≠ [] ∧ report.elapsed = ((w.turns c).map (·.ran)).foldl max 0) := by
  have woken := wakeDue_clock c w.sleepers
  unfold step at ok ⊢
  unfold turns
  generalize wakeDue c w.sleepers = roused at woken ok ⊢
  obtain ⟨⟨_ | _, sleepers⟩, d⟩ := roused
  · cases ok
  dsimp only at woken ok ⊢
  have picked := pickTurns_clock { w with sleepers } d (List.range d.cpus)
  generalize pickTurns { w with sleepers } d (List.range d.cpus) = made at picked ok ⊢
  obtain ⟨outcome, e⟩ := made
  have now : e.clock = c.clock := picked.trans woken
  have moved : ∀ delta, (e.advanceClock delta).2.clock = c.clock + delta := fun delta =>
    congrArg (· + delta) now
  obtain _ | _ | ⟨t, rest⟩ := outcome
  · cases ok
  · cases ok
    exact ⟨rfl, moved _, .inl ⟨rfl, { w with sleepers }, by rw [← now]⟩⟩
  · have ended := endTurns_clock { w with sleepers } (e.advanceClock (((t :: rest).map (·.ran)).foldl max 0)).2
      (t :: rest)
    dsimp only at ok ⊢
    generalize endTurns { w with sleepers } _ (t :: rest) = finished at ended ok ⊢
    obtain ⟨⟨_ | _, v⟩, f⟩ := finished
    · cases ok
    · cases ok
      exact ⟨rfl, ended.trans (moved _), .inr ⟨nofun, rfl⟩⟩

end LoadableSched.Workload
