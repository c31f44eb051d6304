import LoadableSched.Proofs.Class.Supplying
import LoadableSched.Proofs.Workload.Progressing
import LoadableSched.Proofs.Workload.Running
import LoadableSched.Workload.Meter

/-!
What a workload charges its tasks. The pieces that a burst is run in are never longer than the slices that the
task was picked with, and from one wake-up to the next they make up the burst.
-/

namespace LoadableSched

open SchedClass (Operation)

variable {ω : Type} {m : Meter ω}

namespace Meter

theorem steps_here (m : Meter ω) (ops : List (Operation ω)) : (m.steps ops).here = m.here.steps ops := by
  induction ops generalizing m with
  | nil => rfl
  | cons op rest ih => exact ih (m.step op)

theorem steps_append (m : Meter ω) (ops later : List (Operation ω)) :
    m.steps (ops ++ later) = (m.steps ops).steps later := by
  induction ops generalizing m with
  | nil => rfl
  | cons op rest ih => exact ih (m.step op)

theorem trace_append (m : Meter ω) (ops later : List (Operation ω)) :
    m.trace (ops ++ later) = m.trace ops ++ (m.steps ops).trace later := by
  induction ops generalizing m with
  | nil => rfl
  | cons op rest ih => exact congrArg ((m, op) :: ·) (ih (m.step op))

theorem spent_of_not_stop {op : Operation ω} (other : ∀ cpu ran runnable, op ≠ .stop cpu ran runnable) {pid : Pid}
    (still : ¬ m.here.Rouses op pid) : (m.step op).spent pid = m.spent pid := by
  cases op with
  | stop cpu ran runnable => exact absurd rfl (other cpu ran runnable)
  | _ => exact if_neg still

/-! A task that is stopped was running, so that a stop wakes nobody and is charged to that task. -/

section

variable {t : Turn} (steady : m.here.Steady) (here : m.here.current? t.cpu = some t.pid) (runnable : Bool)

include steady here

theorem stop_state? (pid : Pid) : (m.here.step (.stop t.cpu t.ran runnable)).state? pid =
    if pid = t.pid then some (if runnable then .queued else .sleeping) else m.here.state? pid :=
  (steady.stops here t.ran runnable).2.2.2 pid

theorem not_rouses_of_stop (pid : Pid) : ¬ m.here.Rouses (.stop t.cpu t.ran runnable) pid := by
  rintro ⟨slept, awake⟩
  rw [stop_state? steady here] at awake
  split at awake
  · rename_i same
    cases (same ▸ slept).symm.trans (steady.healthy.held t.cpu t.pid here)
  · exact awake slept

theorem stop_spent (pid : Pid) : (m.step (.stop t.cpu t.ran runnable)).spent pid =
    if pid = t.pid then m.spent pid + t.ran.toNat else m.spent pid := by
  have charged : (m.step (.stop t.cpu t.ran runnable)).spent pid =
      if m.here.current? t.cpu = some pid then m.spent pid + t.ran.toNat else m.spent pid :=
    if_neg (not_rouses_of_stop steady here runnable pid)
  rw [charged]
  refine if_congr ?_ rfl rfl
  rw [here, Option.some.injEq]
  exact eq_comm

end

end Meter

namespace Workload

variable {profiles : List Profile} {bursts : Table Pid Burst}

/-- What a task with a time to sleep was charged since it was woken, and what is left of its burst, make up the
burst; when it sleeps, it was charged all of it and has it before it again. -/
structure Accounts (profiles : List Profile) (bursts : Table Pid Burst) (m : Meter ω) : Prop where
  steady : m.here.Steady
  supplied : m.here.Supplied
  known : ∀ p ∈ profiles, ∃ left, bursts.get? p.pid = some ⟨p, left⟩
  asleep : ∀ p ∈ profiles, p.sleep ≠ 0 → ∀ left, bursts.get? p.pid = some ⟨p, left⟩ →
    m.here.state? p.pid = some .sleeping → m.spent p.pid = p.burst.toNat ∧ left = p.burst
  awake : ∀ p ∈ profiles, p.sleep ≠ 0 → ∀ left, bursts.get? p.pid = some ⟨p, left⟩ →
    m.here.state? p.pid ≠ some .sleeping → m.spent p.pid + left.toNat = p.burst.toNat

/-- All is accounted for in a run, and the accounts can be taken up after it. -/
def Settled (profiles : List Profile) (bursts : Table Pid Burst) (m : Meter ω) (ops : List (Operation ω)) : Prop :=
  (∀ e ∈ m.trace ops, e.1.Settles profiles e.2) ∧ Accounts profiles bursts (m.steps ops)

namespace Settled

theorem nil (accounts : Accounts profiles bursts m) : Settled profiles bursts m [] :=
  ⟨fun _ member => absurd member List.not_mem_nil, accounts⟩

theorem cons {op : Operation ω} {rest : List (Operation ω)} (settles : m.Settles profiles op)
    (later : Settled profiles bursts (m.step op) rest) : Settled profiles bursts m (op :: rest) :=
  ⟨List.forall_mem_cons.mpr ⟨settles, later.1⟩, later.2⟩

theorem append {between : Table Pid Burst} {ops later : List (Operation ω)} (first : Settled profiles between m ops)
    (rest : Settled profiles bursts (m.steps ops) later) : Settled profiles bursts m (ops ++ later) := by
  unfold Settled
  rw [Meter.trace_append, List.forall_mem_append, Meter.steps_append]
  exact ⟨⟨first.1, rest.1⟩, rest.2⟩

end Settled

namespace Accounts

variable (accounts : Accounts profiles bursts m)

include accounts

theorem quiet (op : Operation ω) (steady : (m.here.step op).Steady) (supplied : (m.here.step op).Supplied)
    (other : ∀ cpu ran runnable, op ≠ .stop cpu ran runnable)
    (same : ∀ pid, (m.here.step op).state? pid = some .sleeping ↔ m.here.state? pid = some .sleeping) :
    m.Settles profiles op ∧ Accounts profiles bursts (m.step op) := by
  have spent : ∀ pid, (m.step op).spent pid = m.spent pid := fun pid =>
    Meter.spent_of_not_stop other fun ⟨asleep, awake⟩ => awake ((same pid).mpr asleep)
  refine ⟨⟨fun cpu ran runnable stop => absurd stop (other cpu ran runnable), ?_, ?_⟩, steady, supplied,
    accounts.known, ?_, ?_⟩
  · exact fun p _ _ ⟨asleep, awake⟩ => absurd ((same p.pid).mpr asleep) awake
  · exact fun p _ _ ⟨awake, asleep⟩ => absurd ((same p.pid).mp asleep) awake
  · intro p member sleeps left found asleep
    rw [spent]
    exact accounts.asleep p member sleeps left found ((same p.pid).mp asleep)
  · intro p member sleeps left found awake
    rw [spent]
    exact accounts.awake p member sleeps left found fun asleep => awake ((same p.pid).mpr asleep)

theorem advanceClock (delta : Nanos) :
    m.Settles profiles (.advanceClock delta) ∧ Accounts profiles bursts (m.step (.advanceClock delta)) :=
  accounts.quiet (.advanceClock delta) (accounts.steady.step (.advanceClock delta) trivial)
    ⟨accounts.supplied.slices, accounts.supplied.enables⟩ (fun _ _ _ => nofun) fun _ => .rfl

theorem rouse {pid : Pid} (asleep : m.here.state? pid = some .sleeping) (flags : UInt64) :
    m.Settles profiles (.wake pid flags) ∧ Accounts profiles bursts (m.step (.wake pid flags)) := by
  obtain ⟨_, steady, _, states⟩ := accounts.steady.wakes asleep flags
  have states : ∀ other, (m.here.step (.wake pid flags)).state? other =
      if other = pid then some .queued else m.here.state? other := states
  have other : ∀ cpu ran runnable, Operation.wake pid flags ≠ (.stop cpu ran runnable : Operation ω) :=
    fun _ _ _ => nofun
  have lulls : ∀ other, ¬ m.here.Lulls (.wake pid flags) other := by
    rintro other ⟨awake, slept⟩
    rw [states] at slept
    split at slept
    · cases slept
    · exact awake slept
  have rouses : ∀ other, m.here.Rouses (.wake pid flags) other → other = pid := by
    rintro other ⟨slept, awake⟩
    rw [states] at awake
    by_contra apart
    rw [if_neg apart] at awake
    exact awake slept
  refine ⟨⟨nofun, ?_, fun p _ _ falls => absurd falls (lulls p.pid)⟩, steady,
    (SchedClass.wakes_supplied accounts.steady accounts.supplied pid flags).1, accounts.known, ?_, ?_⟩
  · intro p member sleeps ⟨slept, _⟩
    obtain ⟨left, found⟩ := accounts.known p member
    exact (accounts.asleep p member sleeps left found slept).1
  · intro p member sleeps left found slept
    have apart : p.pid ≠ pid := by
      intro same
      cases slept.symm.trans ((states p.pid).trans (if_pos same))
    have before : m.here.state? p.pid = some .sleeping :=
      ((states p.pid).trans (if_neg apart)).symm.trans slept
    rw [Meter.spent_of_not_stop other fun wakes => apart (rouses p.pid wakes)]
    exact accounts.asleep p member sleeps left found before
  · intro p member sleeps left found awake
    by_cases same : p.pid = pid
    · have slept : m.here.state? p.pid = some .sleeping := same ▸ asleep
      have woken : m.here.Rouses (.wake pid flags) p.pid := ⟨slept, awake⟩
      obtain ⟨_, rfl⟩ := accounts.asleep p member sleeps left found slept
      have anew : (m.step (.wake pid flags)).spent p.pid = 0 := if_pos woken
      rw [anew, Nat.zero_add]
    · have before : m.here.state? p.pid ≠ some .sleeping := fun slept =>
        awake (((states p.pid).trans (if_neg same)).trans slept)
      rw [Meter.spent_of_not_stop other fun wakes => same (rouses p.pid wakes)]
      exact accounts.awake p member sleeps left found before

end Accounts

/-! The parts of a step. -/

theorem wakeDue_settled (accounts : Accounts profiles bursts m) {line : List Sleeper}
    (sleeps : Sleeps line m.here) : Settled profiles bursts m (wakeOperations m.here line) := by
  induction line generalizing m with
  | nil => exact .nil accounts
  | cons s rest ih =>
    unfold wakeOperations
    split
    · exact .nil accounts
    · have asleep := sleeps.asleep s List.mem_cons_self
      obtain ⟨settles, next⟩ := accounts.rouse asleep wakeRunnable
      refine .cons settles ?_
      have still := sleeps.wake accounts.steady
      have result := (accounts.steady.wakes asleep wakeRunnable).1
      have here : (m.step (.wake s.pid wakeRunnable)).here = (m.here.wake s.pid wakeRunnable).2 := rfl
      have later := ih next (here ▸ still)
      rw [here] at later
      generalize m.here.wake s.pid wakeRunnable = made at result later
      obtain ⟨_, d⟩ := made
      cases result
      exact later

structure Fits (bursts : Table Pid Burst) (m : Meter ω) (t : Turn) : Prop where
  picked : ∃ slice, m.picked t.cpu = some (t.pid, slice) ∧ t.ran ≤ slice
  left : ∀ burst, bursts.get? t.pid = some burst → t.ran ≤ burst.left

theorem turnOf_fits {w : Workload} {c : SchedClass ω} (held : c.Held) (supplied : c.Supplied) {cpu : CpuId}
    {pid : Pid} (here : c.current? cpu = some pid) :
    ∃ slice, c.seat? cpu = some (pid, slice) ∧ (w.turnOf c cpu pid).ran ≤ slice ∧
      ∀ burst, w.bursts.get? pid = some burst → (w.turnOf c cpu pid).ran ≤ burst.left := by
  obtain ⟨slot, found, runs⟩ := Option.map_eq_some_iff.mp (held cpu pid here)
  have task : c.task? pid = some slot.task := by rw [SchedClass.task?, found]; rfl
  have some : slot.task.slice ≠ 0 := supplied.slices cpu pid slot here found runs
  have whole : max slot.task.slice 1 = slot.task.slice := by
    have least : (1 : Nanos) ≤ slot.task.slice := by
      rw [UInt64.le_iff_toNat_le]
      exact Nat.pos_of_ne_zero fun zero => some (UInt64.toNat_inj.mp zero)
    exact UInt64.le_antisymm (Usage.max_le_iff.mpr ⟨UInt64.le_refl _, least⟩) Usage.left_le_max
  refine ⟨slot.task.slice, by simp [SchedClass.seat?, here, task], ?_, fun burst known => ?_⟩
  · simp only [turnOf, task, Option.map_some, Option.getD_some, whole]
    exact Std.min_le_right
  · simp only [turnOf, known, Option.map_some, Option.getD_some]
    exact Std.min_le_left

theorem pickTurns_settled {w : Workload} (accounts : Accounts profiles w.bursts m) {cpus : List CpuId}
    (known : ∀ cpu ∈ cpus, cpu < m.here.cpus) (distinct : cpus.Nodup) :
    Settled profiles w.bursts m (pickOperations m.here cpus) ∧
      (∀ cpu ∉ cpus, (m.steps (pickOperations m.here cpus)).picked cpu = m.picked cpu) ∧
      ∀ turns, (w.pickTurns m.here cpus).1 = .ok turns →
        ∀ t ∈ turns, Fits w.bursts (m.steps (pickOperations m.here cpus)) t := by
  induction cpus generalizing m with
  | nil =>
    refine ⟨.nil accounts, fun _ _ => rfl, fun turns none => ?_⟩
    cases none
    exact nofun
  | cons cpu rest ih =>
    obtain ⟨apart, distinct⟩ := List.nodup_cons.mp distinct
    obtain ⟨steady, cpus, next, result, current, states⟩ := accounts.steady.picks (known cpu List.mem_cons_self)
    have supplied := SchedClass.pickNext_supplied accounts.steady accounts.supplied cpu
    obtain ⟨settles, after⟩ := accounts.quiet (.pickNext cpu) steady supplied (fun _ _ _ => nofun) fun pid => by
      rcases states pid with same | ⟨queued, runs⟩
      · exact iff_of_eq (congrArg (· = some RunState.sleeping) same)
      · exact iff_of_false (fun slept => by cases runs.symm.trans slept) fun slept => by cases queued.symm.trans slept
    have here : (m.step (.pickNext cpu)).here = (m.here.pickNext cpu).2 := rfl
    have seats : ∀ other, (m.step (.pickNext cpu)).picked other =
        if other = cpu then (m.here.pickNext cpu).2.seat? cpu else m.picked other := fun _ => rfl
    have later := ih after (fun later member => here ▸
      Nat.lt_of_lt_of_eq (known later (List.mem_cons_of_mem _ member)) cpus.symm) distinct
    rw [here] at later
    unfold pickOperations pickTurns
    generalize m.here.pickNext cpu = made at *
    obtain ⟨_, d⟩ := made
    cases result
    obtain ⟨settled, others, fits⟩ := later
    refine ⟨.cons settles settled, fun other absent => ?_, fun turns made => ?_⟩
    · refine (others other (List.not_mem_of_not_mem_cons absent)).trans ?_
      rw [seats, if_neg (List.ne_of_not_mem_cons absent)]
    · -- What the first processor was given stays on the meter while the others pick.
      have kept := (others cpu apart).trans ((seats cpu).trans (if_pos rfl))
      dsimp only at made
      generalize w.pickTurns d rest = ended at made fits
      obtain ⟨_ | more, e⟩ := ended
      · cases made
      cases next with
      | none =>
        cases made
        exact fits _ rfl
      | some pid =>
        cases made
        have own : d.current? cpu = some pid := by
          rw [current, if_pos rfl]
        obtain ⟨slice, seat, within, left⟩ := turnOf_fits (w := w) steady.healthy.held supplied own
        exact List.forall_mem_cons.mpr ⟨⟨⟨slice, kept.trans seat, within⟩, left⟩, fits _ rfl⟩

/-- A task with a time to sleep was charged its whole burst with the turn that ends it, and rests then; before
that, what is left of the burst is what it was not charged. -/
theorem Accounts.turn {w : Workload} (accounts : Accounts profiles w.bursts m) {t : Turn}
    (here : m.here.current? t.cpu = some t.pid) (fits : Fits w.bursts m t) {p : Profile} (member : p ∈ profiles)
    (sleeps : p.sleep ≠ 0) (same : p.pid = t.pid) :
    ∃ left, (w.bursts.get? p.pid).map (·.spend t.ran) = some ⟨p, left⟩ ∧
      if w.staysRunnable t then m.spent p.pid + t.ran.toNat + left.toNat = p.burst.toNat
      else m.spent p.pid + t.ran.toNat = p.burst.toNat ∧ left = p.burst := by
  obtain ⟨before, found⟩ := accounts.known p member
  have awake : m.here.state? p.pid ≠ some .sleeping := by
    rw [same, accounts.steady.healthy.held t.cpu t.pid here]
    nofun
  have sum := accounts.awake p member sleeps before found awake
  have rests : p.sleep > 0 := UInt64.pos_iff_ne_zero.mpr sleeps
  have known : w.bursts.get? t.pid = some ⟨p, before⟩ := same ▸ found
  have within : t.ran.toNat ≤ before.toNat := UInt64.le_iff_toNat_le.mp (fits.left _ known)
  have left := subSat_toNat before t.ran
  rw [found]
  refine ⟨_, rfl, ?_⟩
  by_cases finished : subSat before t.ran = 0
  · have rested : w.staysRunnable t = false := by simp [staysRunnable, known, finished, rests]
    rw [finished, UInt64.toNat_zero] at left
    rw [rested, if_neg Bool.false_ne_true]
    exact ⟨by omega, if_pos finished⟩
  · have stays : w.staysRunnable t = true := by simp [staysRunnable, known, finished]
    rw [stays, if_pos rfl, if_neg finished, left]
    omega

theorem endTurn_settles {w : Workload} (accounts : Accounts profiles w.bursts m) {t : Turn}
    (here : m.here.current? t.cpu = some t.pid) (fits : Fits w.bursts m t) :
    (w.endTurn m.here t).1.1 = .ok () ∧ m.Settles profiles (.stop t.cpu t.ran (w.staysRunnable t)) ∧
      Accounts profiles (w.endTurn m.here t).1.2.bursts (m.step (.stop t.cpu t.ran (w.staysRunnable t))) := by
  have stops := fun runnable => accounts.steady.stops here t.ran runnable
  have ended : (w.endTurn m.here t).1.1 = .ok () := by
    rcases w.endTurn_cases fun runnable => (stops runnable).1 with ⟨_, same⟩ | ⟨_, _, _, same | same⟩ <;> rw [same]
  have turn := fun p member sleeps same => accounts.turn here fits (p := p) member sleeps same
  generalize w.staysRunnable t = stays at turn ⊢
  have states := fun pid => Meter.stop_state? accounts.steady here stays pid
  have spent := fun pid => Meter.stop_spent accounts.steady here stays pid
  have rouses := fun pid => Meter.not_rouses_of_stop accounts.steady here stays pid
  refine ⟨ended, ⟨?_, fun p _ _ woken => absurd woken (rouses p.pid), ?_⟩, (stops stays).2.1,
    SchedClass.stop_supplied accounts.steady accounts.supplied t.cpu t.ran stays, ?_, ?_, ?_⟩
  · rintro cpu ran runnable ⟨⟩
    obtain ⟨slice, picked, within⟩ := fits.picked
    exact ⟨t.pid, slice, here, picked, within⟩
  · intro p member sleeps ⟨awake, slept⟩
    rw [states] at slept
    by_cases same : p.pid = t.pid
    · obtain ⟨left, _, sum⟩ := turn p member sleeps same
      rw [spent, if_pos same]
      cases stays with
      | false => exact sum.1
      | true => cases (if_pos same).symm.trans slept
    · exact absurd ((if_neg same).symm.trans slept) awake
  · intro p member
    obtain ⟨left, found⟩ := accounts.known p member
    rw [endTurn_get?]
    split
    · exact ⟨_, by rw [found]; rfl⟩
    · exact ⟨left, found⟩
  · intro p member sleeps left found slept
    have slept := (states p.pid).symm.trans slept
    rw [endTurn_get?] at found
    rw [spent]
    by_cases same : p.pid = t.pid
    · obtain ⟨_, spends, sum⟩ := turn p member sleeps same
      rw [if_pos same] at found slept ⊢
      cases spends.symm.trans found
      cases stays with
      | false => exact sum
      | true => cases slept
    · rw [if_neg same] at found slept ⊢
      exact accounts.asleep p member sleeps left found slept
  · intro p member sleeps left found awake
    have awake : _ ≠ some RunState.sleeping := fun slept => awake ((states p.pid).trans slept)
    rw [endTurn_get?] at found
    rw [spent]
    by_cases same : p.pid = t.pid
    · obtain ⟨_, spends, sum⟩ := turn p member sleeps same
      rw [if_pos same] at found awake ⊢
      cases spends.symm.trans found
      cases stays with
      | false => exact absurd rfl awake
      | true => exact sum
    · rw [if_neg same] at found awake ⊢
      exact accounts.awake p member sleeps left found awake

theorem endTurns_settled {w : Workload} (accounts : Accounts profiles w.bursts m) {turns : List Turn}
    (here : ∀ t ∈ turns, m.here.current? t.cpu = some t.pid) (apart : (turns.map (·.cpu)).Nodup)
    (fits : ∀ t ∈ turns, Fits w.bursts m t) :
    Settled profiles (w.endTurns m.here turns).1.2.bursts m (w.stopOperations m.here turns) := by
  induction turns generalizing w m with
  | nil => exact .nil accounts
  | cons t rest ih =>
    obtain ⟨new, apart⟩ := List.nodup_cons.mp apart
    have own := here t List.mem_cons_self
    have elsewhere : ∀ later ∈ rest, later.cpu ≠ t.cpu := fun later member same =>
      new (List.mem_map.mpr ⟨later, member, same⟩)
    obtain ⟨result, settles, after⟩ := endTurn_settles accounts own (fits t List.mem_cons_self)
    have left : (m.step (.stop t.cpu t.ran (w.staysRunnable t))).here = (w.endTurn m.here t).2 :=
      (endTurn_class w m.here t).symm
    have still : ∀ later ∈ rest, (w.endTurn m.here t).2.current? later.cpu = some later.pid := by
      intro later member
      obtain ⟨_, _, current, _⟩ := accounts.steady.stops own t.ran (w.staysRunnable t)
      rw [endTurn_class]
      exact ((current later.cpu).trans (if_neg (elsewhere later member))).trans
        (here later (List.mem_cons_of_mem _ member))
    have fit : ∀ later ∈ rest, Fits (w.endTurn m.here t).1.2.bursts
        (m.step (.stop t.cpu t.ran (w.staysRunnable t))) later := by
      intro later member
      obtain ⟨⟨slice, picked, within⟩, left⟩ := fits later (List.mem_cons_of_mem _ member)
      refine ⟨⟨slice, (if_neg (elsewhere later member)).trans picked, within⟩, fun burst found => ?_⟩
      have other : later.pid ≠ t.pid := by
        intro same
        have there := here later (List.mem_cons_of_mem _ member)
        exact elsewhere later member (accounts.steady.healthy.held.on_one there (same ▸ own))
      rw [endTurn_get?, if_neg other] at found
      exact left burst found
    have later := ih (w := (w.endTurn m.here t).1.2) after (by rwa [left]) apart fit
    rw [left] at later
    unfold endTurns stopOperations
    refine .cons settles ?_
    generalize w.endTurn m.here t = ended at result later
    obtain ⟨⟨_, v⟩, d⟩ := ended
    cases result
    exact later

theorem elapse_settled {w : Workload} (accounts : Accounts profiles w.bursts m) {turns : List Turn}
    (here : ∀ t ∈ turns, m.here.current? t.cpu = some t.pid) (apart : (turns.map (·.cpu)).Nodup)
    (fits : ∀ t ∈ turns, Fits w.bursts m t) (elapsed : Nanos) :
    Settled profiles (w.endTurns (m.here.advanceClock elapsed).2 turns).1.2.bursts m
      (.advanceClock elapsed :: w.stopOperations (m.here.advanceClock elapsed).2 turns) := by
  obtain ⟨settles, accounts⟩ := accounts.advanceClock elapsed
  have fit : ∀ t ∈ turns, Fits w.bursts (m.step (.advanceClock elapsed)) t := fun t member =>
    ⟨(fits t member).picked, (fits t member).left⟩
  exact .cons settles (endTurns_settled accounts here apart fit)

theorem step_settled {w : Workload} (tends : Tends profiles w m.here) (accounts : Accounts profiles w.bursts m) :
    Settled profiles (w.step m.here).1.2.bursts m (w.operations m.here) := by
  obtain ⟨result, wakes⟩ := wakeDue_wakes tends.steady tends.sleeps
  have woken := wakeDue_settled accounts tends.sleeps
  -- What each part of the step leaves of the class is what the meter reads after the operations of that part.
  have reached : (m.steps (wakeOperations m.here w.sleepers)).here = (wakeDue m.here w.sleepers).2 := by
    rw [Meter.steps_here, wakeDue_class]
  unfold step operations
  refine woken.append ?_
  have accounts := woken.2
  generalize m.steps (wakeOperations m.here w.sleepers) = roused at reached accounts ⊢
  generalize wakeDue m.here w.sleepers = made at result reached ⊢
  obtain ⟨⟨_, sleepers⟩, d⟩ := made
  cases (Prod.mk.inj result).1
  dsimp only at reached ⊢
  subst reached
  generalize still : { w with sleepers } = v
  have accounts : Accounts profiles v.bursts roused := still ▸ accounts
  obtain ⟨turns, result, picks⟩ := pickTurns_picks v accounts.steady (fun cpu => List.mem_range.mp)
    (List.nodup_range (n := roused.here.cpus))
  obtain ⟨picked, _, all⟩ := pickTurns_settled accounts (fun cpu => List.mem_range.mp)
    (List.nodup_range (n := roused.here.cpus))
  have fits := all turns result
  clear all
  have reached : (roused.steps (pickOperations roused.here (List.range roused.here.cpus))).here =
      (v.pickTurns roused.here (List.range roused.here.cpus)).2 := by
    rw [Meter.steps_here, pickTurns_class]
  refine picked.append ?_
  have accounts := picked.2
  generalize roused.steps (pickOperations roused.here (List.range roused.here.cpus)) = seated at *
  generalize v.pickTurns roused.here (List.range roused.here.cpus) = made at *
  obtain ⟨_, e⟩ := made
  cases result
  dsimp only at reached picks ⊢
  subst reached
  cases turns with
  | nil =>
    obtain ⟨settles, after⟩ := accounts.advanceClock (v.idleTime seated.here.clock)
    exact .cons settles (.nil after)
  | cons t rest =>
    have ended := elapse_settled accounts picks.here (picks.order.nodup List.nodup_range) fits
      (((t :: rest).map (·.ran)).foldl max 0)
    dsimp only
    generalize Workload.endTurns v _ (t :: rest) = finished at ended ⊢
    obtain ⟨⟨_ | _, u⟩, f⟩ := finished <;> exact ended

theorem after_settled {w : Workload} {c : SchedClass ω} (tends : Tends profiles w c)
    (accounts : Accounts profiles w.bursts (Meter.of c)) (n : Nat) :
    Settled profiles (w.after c n).1.bursts (Meter.of c) (w.history c n) := by
  induction n with
  | zero => exact .nil accounts
  | succ n ih =>
    have here : ((Meter.of c).steps (w.history c n)).here = (w.after c n).2 := by
      rw [Meter.steps_here, after_class]
      rfl
    have next := step_settled (here ▸ after_tends tends n) ih.2
    rw [here] at next
    exact ih.append next

/-! The start. -/

theorem forEach_keeps {α : Type} {P : SchedClass ω → Prop}
    (op : SchedClass ω → α → Except ClassError Unit × SchedClass ω) (keeps : ∀ c a, P c → P (op c a).2)
    {c : SchedClass ω} (holds : P c) (all : List α) : P (forEach op c all).2 := by
  induction all generalizing c with
  | nil => exact holds
  | cons a rest ih =>
    have next := keeps c a holds
    unfold forEach
    generalize op c a = made at next ⊢
    obtain ⟨_ | _, d⟩ := made
    · exact next
    · exact ih next

theorem spawn_supplied {c : SchedClass ω} (steady : c.Steady) (supplied : c.Supplied) (profiles : List Profile) :
    (spawn c profiles).2.Supplied := by
  have entered := forEach_keeps (P := fun c => c.Steady ∧ c.Supplied)
    (fun c (p : Profile) => c.addTask (Task.withWeight { pid := p.pid } p.weight))
    (fun c p ⟨steady, supplied⟩ => ⟨steady.step (.addTask _) trivial,
      SchedClass.step_supplied steady supplied (.addTask _) trivial trivial⟩) ⟨steady, supplied⟩ profiles
  unfold spawn
  dsimp only
  generalize forEach _ c profiles = made at entered ⊢
  obtain ⟨_ | _, d⟩ := made
  · exact entered.2
  have roused := forEach_keeps (P := fun c => c.Steady ∧ c.Supplied)
    (fun c (p : Profile) => c.wake p.pid wakeRunnable)
    (fun c p ⟨steady, supplied⟩ => ⟨steady.step (.wake p.pid wakeRunnable) trivial,
      (SchedClass.wakes_supplied steady supplied p.pid wakeRunnable).1⟩) entered profiles
  dsimp only
  generalize forEach _ d profiles = made at roused ⊢
  obtain ⟨_ | _, e⟩ := made <;> exact roused.2

theorem spawn_accounts {w : Workload} {c d : SchedClass ω} (steady : c.Steady) (supplied : c.Supplied)
    (distinct : (profiles.map (·.pid)).Nodup) (made : spawn c profiles = (.ok w, d)) (tends : Tends profiles w d)
    (queued : ∀ p ∈ profiles, d.state? p.pid = some .queued) : Accounts profiles w.bursts (Meter.of d) where
  steady := tends.steady
  supplied := by
    have spawned := spawn_supplied steady supplied profiles
    rwa [made] at spawned
  known := tends.known
  asleep p member _ _ _ slept := by cases (queued p member).symm.trans slept
  awake p member _ left found _ := by
    rw [spawn_bursts made, bursts_of_profiles distinct] at found
    obtain ⟨q, _, _, same⟩ := found
    cases same
    exact Nat.zero_add _

end Workload

theorem SchedClass.Operation.Ships.leavesSlices {op : Operation Memory} (ships : op.Ships) : op.LeavesSlices := by
  cases op with
  | install policy =>
    cases ships with
    | fifo => exact fun _ _ _ _ => rfl
    | roundRobin r => exact fun _ _ _ _ => rfl
    | ioPriority p => exact fun _ _ _ _ => rfl
  | _ => trivial

namespace Workload

/-- On a class that only ever had policies that come with the host, or none, all steps of a workload that was
spawned there succeed, and in the operations that it drives the class by a task is never stopped after more time
than the slice that it was picked with; and a task with a time to sleep was charged exactly its burst whenever it
falls asleep and whenever it is woken, since it was last woken or since it was spawned. -/
theorem bursts_are_charged_exactly (cpus : Nat) (memory : Memory) (ops : List (Operation Memory))
    (ships : ∀ op ∈ ops, op.Ships) (profiles : List Profile) (distinct : (profiles.map (·.pid)).Nodup)
    (fresh : ∀ p ∈ profiles, ((SchedClass.new cpus memory).steps ops).state? p.pid = none) :
    ∃ w c, spawn ((SchedClass.new cpus memory).steps ops) profiles = (.ok w, c) ∧ ∀ n,
      (∃ report, ((w.after c n).1.step (w.after c n).2).1.1 = .ok report) ∧
      (w.after c n).2 = c.steps (w.history c n) ∧
      ∀ e ∈ (Meter.of c).trace (w.history c n), e.1.Settles profiles e.2 := by
  have steady := SchedClass.Steady.run cpus memory fun op member => (ships op member).conforms
  have supplied := SchedClass.steps_supplied (.new cpus memory) (.new cpus memory)
    (fun op member => (ships op member).conforms) fun op member => (ships op member).leavesSlices
  obtain ⟨w, c, spawned, tends, queued⟩ := spawn_tends steady distinct fresh
  have accounts := spawn_accounts steady supplied distinct spawned tends queued
  exact ⟨w, c, spawned, fun n =>
    ⟨(step_steps (after_tends tends n)).1, w.after_class c n, (after_settled tends accounts n).1⟩⟩

def longBurst : Profile := ⟨1, 100, 50000000, 1000⟩

/-- It falls asleep in its third turn, and when it is woken it was charged the whole burst. -/
theorem long_burst_is_charged_in_pieces :
    ∃ w c, spawn pair [longBurst] = (.ok w, c) ∧
      ∃ e ∈ (Meter.of c).trace (w.history c 5), e.1.here.Rouses e.2 1 ∧ e.1.spent 1 = 50000000 := by
  have ships : ∀ op ∈ [Operation.install (Fifo.policy Memory)], op.Ships := by
    intro op member
    cases List.mem_singleton.mp member
    exact .fifo
  obtain ⟨w, c, spawned, settled⟩ := bursts_are_charged_exactly 2 Memory.empty _ ships [longBurst] (by decide)
    (by decide)
  have made : spawn pair [longBurst] =
      (.ok ⟨Table.ofList [(1, ⟨longBurst, 50000000⟩)], []⟩, (spawn pair [longBurst]).2) := rfl
  cases made.symm.trans spawned
  obtain ⟨_, _, settles⟩ := settled 5
  have woken : ∃ e ∈ (Meter.of (spawn pair [longBurst]).2).trace
      (history ⟨Table.ofList [(1, ⟨longBurst, 50000000⟩)], []⟩ (spawn pair [longBurst]).2 5),
      e.1.here.Rouses e.2 1 := by
    decide +kernel
  obtain ⟨e, member, woken⟩ := woken
  exact ⟨_, _, made, e, member, woken, (settles e member).wakes longBurst List.mem_cons_self (by decide) woken⟩

end Workload

end LoadableSched
