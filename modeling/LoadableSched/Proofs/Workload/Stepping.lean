import LoadableSched.Proofs.Workload.Tending

/-!
One step of a workload: those that are due are woken, every processor picks a task, and when the clock has
moved all turns end. No processor is left with a task, and whoever sleeps then slept before and is not yet
due, or has just begun to.
-/

namespace LoadableSched.Workload

variable {ω : Type} {profiles : List Profile} {w : Workload} {c d : SchedClass ω}

structure Picks (cpus : List CpuId) (c : SchedClass ω) (turns : List Turn) (d : SchedClass ω) : Prop where
  steady : d.Steady
  processors : d.cpus = c.cpus
  order : (turns.map (·.cpu)).Sublist cpus
  here : ∀ t ∈ turns, d.current? t.cpu = some t.pid
  free : ∀ cpu ∈ cpus, cpu ∉ turns.map (·.cpu) → d.current? cpu = none
  others : ∀ cpu, cpu ∉ cpus → d.current? cpu = c.current? cpu
  states : ∀ pid, d.state? pid = c.state? pid ∨
    c.state? pid = some .queued ∧ ∃ cpu, d.state? pid = some (.running cpu)

theorem pickTurns_picks (w : Workload) (steady : c.Steady) {cpus : List CpuId}
    (known : ∀ cpu ∈ cpus, cpu < c.cpus) (distinct : cpus.Nodup) :
    ∃ turns, (w.pickTurns c cpus).1 = .ok turns ∧ Picks cpus c turns (w.pickTurns c cpus).2 := by
  induction cpus generalizing c with
  | nil =>
    refine ⟨[], rfl, steady, rfl, .slnil, ?_, ?_, fun _ _ => rfl, fun _ => .inl rfl⟩ <;> simp
  | cons cpu rest ih =>
    obtain ⟨apart, distinct⟩ := List.nodup_cons.mp distinct
    obtain ⟨after, cpus, next, result, current, states⟩ := steady.picks (known cpu List.mem_cons_self)
    unfold pickTurns
    generalize c.pickNext cpu = picked at *
    obtain ⟨_, d⟩ := picked
    cases result
    obtain ⟨turns, result, picks⟩ := ih after (fun later member =>
      Nat.lt_of_lt_of_eq (known later (List.mem_cons_of_mem _ member)) cpus.symm) distinct
    dsimp only
    generalize w.pickTurns d rest = made at *
    obtain ⟨_, e⟩ := made
    cases result
    -- What the first processor took stays with it while the others pick.
    have own : e.current? cpu = next := by
      rw [picks.others cpu apart, current, if_pos rfl]
    have elsewhere : ∀ other, other ∉ cpu :: rest → e.current? other = c.current? other := by
      intro other absent
      rw [picks.others other (List.not_mem_of_not_mem_cons absent), current,
        if_neg (List.ne_of_not_mem_cons absent)]
    -- A task that started here no longer waits, so that no later processor takes it.
    have both : ∀ pid, e.state? pid = c.state? pid ∨
        c.state? pid = some .queued ∧ ∃ cpu, e.state? pid = some (.running cpu) := by
      intro pid
      rcases picks.states pid with same | ⟨queued, runs⟩
      · rw [same]
        exact (states pid).imp_right fun ⟨queued, runs⟩ => ⟨queued, cpu, runs⟩
      · rcases states pid with same | ⟨_, runs'⟩
        · exact .inr ⟨same ▸ queued, runs⟩
        · cases queued.symm.trans runs'
    cases next with
    | none =>
      refine ⟨turns, rfl, picks.steady, picks.processors.trans cpus, picks.order.cons cpu, picks.here, ?_,
        elsewhere, both⟩
      rintro other (_ | ⟨_, later⟩) idle
      · exact own
      · exact picks.free other later idle
    | some pid =>
      refine ⟨_, rfl, picks.steady, picks.processors.trans cpus, picks.order.cons_cons cpu, ?_, ?_, elsewhere, both⟩
      · rintro t (_ | ⟨_, later⟩)
        · exact own
        · exact picks.here t later
      · intro other among idle
        exact picks.free other ((List.mem_cons.mp among).resolve_left (List.ne_of_not_mem_cons idle))
          (List.not_mem_of_not_mem_cons idle)

theorem Picks.idle {turns : List Turn} (picks : Picks (List.range c.cpus) c turns d) {cpu : CpuId}
    (without : cpu ∉ turns.map (·.cpu)) : d.current? cpu = none := by
  by_cases known : cpu < c.cpus
  · exact picks.free cpu (List.mem_range.mpr known) without
  · exact picks.steady.backed.free_beyond (picks.processors ▸ Nat.le_of_not_lt known)

theorem Picks.asleep_iff {cpus : List CpuId} {turns : List Turn} (picks : Picks cpus c turns d) (pid : Pid) :
    d.state? pid = some .sleeping ↔ c.state? pid = some .sleeping := by
  rcases picks.states pid with same | ⟨queued, cpu, runs⟩
  · rw [same]
  · simp [queued, runs]

theorem Tends.picks (tends : Tends profiles w c) {cpus : List CpuId} {turns : List Turn}
    (picks : Picks cpus c turns d) : Tends profiles w d := by
  refine tends.undisturbed picks.steady picks.asleep_iff fun pid present => ?_
  rcases picks.states pid with same | ⟨_, cpu, runs⟩
  · rwa [same]
  · simp [runs]

theorem Tends.advanceClock (tends : Tends profiles w c) (delta : Nanos) :
    Tends profiles w (c.advanceClock delta).2 :=
  tends.undisturbed (tends.steady.step (.advanceClock delta) trivial) (fun _ => .rfl) fun _ => id

/-- What a whole step makes of a workload and its class. -/
structure Steps (profiles : List Profile) (w : Workload) (c : SchedClass ω) (v : Workload)
    (d : SchedClass ω) : Prop where
  tends : Tends profiles v d
  idle : ∀ cpu, d.current? cpu = none
  kept : ∀ s ∈ w.sleepers, c.clock < s.due → s ∈ v.sleepers
  fresh : ∀ s ∈ v.sleepers, s ∈ w.sleepers ∧ c.clock < s.due ∨
    ∃ p ∈ profiles, s = ⟨d.clock + p.sleep, p.pid⟩

theorem step_steps (tends : Tends profiles w c) :
    (∃ report, (w.step c).1.1 = .ok report) ∧ Steps profiles w c (w.step c).1.2 (w.step c).2 := by
  obtain ⟨result, wakes⟩ := wakeDue_wakes tends.steady tends.sleeps
  have woken := tends.wakes wakes
  have early : ∀ s, s ∈ w.sleepers.filter (c.clock < ·.due) ↔ s ∈ w.sleepers ∧ c.clock < s.due := by
    simp
  unfold step
  generalize wakeDue c w.sleepers = roused at *
  obtain ⟨⟨_, sleepers⟩, d⟩ := roused
  cases result
  dsimp only at *
  obtain ⟨turns, result, picks⟩ := pickTurns_picks
    { w with sleepers := w.sleepers.filter (c.clock < ·.due) } wakes.steady
    (fun cpu => List.mem_range.mp) (List.nodup_range (n := d.cpus))
  have tended := woken.picks picks
  generalize pickTurns _ d (List.range d.cpus) = made at *
  obtain ⟨_, e⟩ := made
  cases result
  dsimp only at *
  cases turns with
  | nil =>
    -- Nobody runs: the clock moves on to the first sleeper, and nothing else happens.
    exact ⟨⟨_, rfl⟩, tended.advanceClock _, fun _ => picks.idle List.not_mem_nil,
      fun s member ahead => (early s).mpr ⟨member, ahead⟩, fun s member => .inl ((early s).mp member)⟩
  | cons t rest =>
    dsimp only
    generalize ((t :: rest).map (·.ran)).foldl max 0 = elapsed
    obtain ⟨result, ends⟩ := endTurns_ends (tended.advanceClock elapsed) picks.here
      (picks.order.nodup List.nodup_range)
    generalize endTurns _ _ (t :: rest) = ended at *
    obtain ⟨⟨_, v⟩, f⟩ := ended
    cases result
    refine ⟨⟨_, rfl⟩, ends.tends, fun cpu => ?_, fun s member ahead => ?_, fun s member => ?_⟩
    · rw [ends.current]
      split
      · rfl
      · rename_i without
        exact picks.idle without
    · exact ends.kept s ((early s).mpr ⟨member, ahead⟩)
    · have clock := ends.clock
      exact (ends.fresh s member).imp (early s).mp fun new => clock ▸ new

end LoadableSched.Workload
