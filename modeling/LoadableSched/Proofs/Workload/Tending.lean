import LoadableSched.Proofs.Workload.Sleeping

/-!
What the parts of a step keep: the class and the workload agree about the tasks of the profiles, each of
which is registered and has a burst, and sleeps exactly if it stands in the line of sleepers.
-/

namespace LoadableSched.Workload

variable {ω : Type} {profiles : List Profile} {w : Workload} {c d : SchedClass ω}

structure Tends (profiles : List Profile) (w : Workload) (c : SchedClass ω) : Prop where
  steady : c.Steady
  sleeps : Sleeps w.sleepers c
  known : ∀ p ∈ profiles, ∃ left, w.bursts.get? p.pid = some ⟨p, left⟩
  own : ∀ pid burst, w.bursts.get? pid = some burst →
    burst.profile ∈ profiles ∧ burst.profile.pid = pid
  registered : ∀ p ∈ profiles, c.state? p.pid ≠ none
  entered : ∀ p ∈ profiles, c.state? p.pid = some .sleeping → ∃ s ∈ w.sleepers, s.pid = p.pid

namespace Tends

theorem undisturbed (tends : Tends profiles w c) (steady : d.Steady)
    (same : ∀ pid, d.state? pid = some .sleeping ↔ c.state? pid = some .sleeping)
    (stays : ∀ pid, c.state? pid ≠ none → d.state? pid ≠ none) : Tends profiles w d where
  steady := steady
  sleeps := ⟨tends.sleeps.inLine, tends.sleeps.distinct, fun s member =>
    (same s.pid).mpr (tends.sleeps.asleep s member)⟩
  known := tends.known
  own := tends.own
  registered p member := stays p.pid (tends.registered p member)
  entered p member asleep := tends.entered p member ((same p.pid).mp asleep)

theorem spends (tends : Tends profiles w c) {pid : Pid} {burst : Burst}
    (found : w.bursts.get? pid = some burst) (left : Nanos) :
    Tends profiles { w with bursts := w.bursts.insert pid { burst with left } } c where
  steady := tends.steady
  sleeps := tends.sleeps
  known p member := by
    obtain ⟨before, here⟩ := tends.known p member
    rw [Table.get?_insert]
    split
    · rename_i same
      rw [same, found] at here
      cases here
      exact ⟨left, rfl⟩
    · exact ⟨before, here⟩
  own other changed here := by
    rw [Table.get?_insert] at here
    split at here
    · rename_i same
      cases here
      exact same ▸ tends.own pid burst found
    · exact tends.own other changed here
  registered := tends.registered
  entered := tends.entered

theorem wakes (tends : Tends profiles w c) (wakes : Wakes w.sleepers c d) :
    Tends profiles { w with sleepers := w.sleepers.filter (c.clock < ·.due) } d where
  steady := wakes.steady
  sleeps := by
    have sub : (w.sleepers.filter (c.clock < ·.due)).Sublist w.sleepers := List.filter_sublist
    refine ⟨tends.sleeps.inLine.sublist sub, tends.sleeps.distinct.sublist (sub.map _), ?_⟩
    intro s member
    obtain ⟨before, early⟩ := List.mem_filter.mp member
    rw [wakes.others s.pid, tends.sleeps.asleep s before]
    intro t among due same
    cases tends.sleeps.eq_of_pid among before same
    exact UInt64.not_lt.mpr due (of_decide_eq_true early)
  known := tends.known
  own := tends.own
  registered p member := by
    by_cases due : ∃ s ∈ w.sleepers, s.due ≤ c.clock ∧ s.pid = p.pid
    · obtain ⟨s, among, due, same⟩ := due
      rw [← same, wakes.woken s among due]
      simp
    · rw [wakes.others p.pid fun s among late same => due ⟨s, among, late, same⟩]
      exact tends.registered p member
  entered p member asleep := by
    have still : ∀ s ∈ w.sleepers, s.due ≤ c.clock → s.pid ≠ p.pid := by
      intro s among due same
      rw [← same, wakes.woken s among due] at asleep
      cases asleep
    rw [wakes.others p.pid still] at asleep
    obtain ⟨s, among, same⟩ := tends.entered p member asleep
    refine ⟨s, List.mem_filter.mpr ⟨among, decide_eq_true ?_⟩, same⟩
    exact UInt64.not_le.mp fun due => still s among due same

section

variable {cpu : CpuId} {pid : Pid} (tends : Tends profiles w c) (here : c.current? cpu = some pid)

include tends here

theorem running : c.state? pid = some (.running cpu) := tends.steady.healthy.held cpu pid here

theorem not_sleeper {s : Sleeper} (member : s ∈ w.sleepers) : s.pid ≠ pid := by
  intro same
  have asleep := tends.sleeps.asleep s member
  rw [same, tends.running here] at asleep
  cases asleep

theorem requeues (ran : Nanos) : Tends profiles w (c.stop cpu ran true).2 := by
  obtain ⟨_, steady, _, states⟩ := tends.steady.stops here ran true
  have runs := tends.running here
  refine tends.undisturbed steady (fun other => ?_) fun other present => ?_
  · rw [states]
    split
    · rename_i same
      simp [same, runs]
    · rfl
  · rw [states]
    split
    · simp
    · exact present

theorem dismisses (foreign : ∀ p ∈ profiles, p.pid ≠ pid) (ran : Nanos) :
    Tends profiles w (c.stop cpu ran false).2 := by
  obtain ⟨_, steady, _, states⟩ := tends.steady.stops here ran false
  refine ⟨steady, ⟨tends.sleeps.inLine, tends.sleeps.distinct, fun s member => ?_⟩, tends.known, tends.own,
    fun p member => ?_, fun p member asleep => ?_⟩
  · rw [states, if_neg (tends.not_sleeper here member)]
    exact tends.sleeps.asleep s member
  · rw [states, if_neg (foreign p member)]
    exact tends.registered p member
  · rw [states, if_neg (foreign p member)] at asleep
    exact tends.entered p member asleep

theorem retires (due ran : Nanos) :
    Tends profiles { w with sleepers := Sleeper.insert ⟨due, pid⟩ w.sleepers } (c.stop cpu ran false).2 := by
  obtain ⟨_, steady, _, states⟩ := tends.steady.stops here ran false
  have line := Sleeper.insert_perm ⟨due, pid⟩ w.sleepers
  refine ⟨steady, ⟨tends.sleeps.inLine.insert _, ?_, fun s member => ?_⟩, tends.known, tends.own,
    fun p member => ?_, fun p member asleep => ?_⟩
  · refine (line.map (·.pid)).nodup_iff.mpr (List.nodup_cons.mpr ⟨fun among => ?_, tends.sleeps.distinct⟩)
    obtain ⟨s, member, same⟩ := List.mem_map.mp among
    exact tends.not_sleeper here member same
  · rw [states]
    rcases List.mem_cons.mp (line.mem_iff.mp member) with rfl | before
    · simp
    · rw [if_neg (tends.not_sleeper here before)]
      exact tends.sleeps.asleep s before
  · rw [states]
    split
    · simp
    · exact tends.registered p member
  · rw [states] at asleep
    split at asleep
    · rename_i same
      exact ⟨⟨due, pid⟩, line.mem_iff.mpr List.mem_cons_self, same.symm⟩
    · obtain ⟨s, before, same⟩ := tends.entered p member asleep
      exact ⟨s, line.mem_iff.mpr (List.mem_cons_of_mem _ before), same⟩

end

end Tends

/-- From one workload and class to the next these processors' tasks have stopped, and who fell asleep
meanwhile is due its time to sleep after the present. -/
structure Ends (profiles : List Profile) (cpus : List CpuId) (w : Workload) (c : SchedClass ω)
    (v : Workload) (d : SchedClass ω) : Prop where
  tends : Tends profiles v d
  clock : d.clock = c.clock
  current : ∀ cpu, d.current? cpu = if cpu ∈ cpus then none else c.current? cpu
  kept : ∀ s ∈ w.sleepers, s ∈ v.sleepers
  fresh : ∀ s ∈ v.sleepers, s ∈ w.sleepers ∨ ∃ p ∈ profiles, s = ⟨c.clock + p.sleep, p.pid⟩

namespace Ends

theorem nobody (tends : Tends profiles w c) : Ends profiles [] w c w c where
  tends := tends
  clock := rfl
  current _ := (if_neg List.not_mem_nil).symm
  kept _ := id
  fresh _ := .inl

theorem trans {v u : Workload} {e : SchedClass ω} {cpus later : List CpuId} (first : Ends profiles cpus w c v d)
    (rest : Ends profiles later v d u e) : Ends profiles (cpus ++ later) w c u e where
  tends := rest.tends
  clock := rest.clock.trans first.clock
  current cpu := by
    rw [rest.current, first.current]
    by_cases stopped : cpu ∈ later <;> simp [stopped]
  kept s member := rest.kept s (first.kept s member)
  fresh s member := by
    rw [← first.clock]
    rcases rest.fresh s member with before | new
    · exact (first.fresh s before).imp_right fun new => first.clock ▸ new
    · exact .inr new

/-- The processors are distinct: the first turn leaves the current tasks of the others alone. -/
theorem later {v : Workload} {t : Turn} {rest : List Turn} (ends : Ends profiles [t.cpu] w c v d)
    (here : ∀ later ∈ t :: rest, c.current? later.cpu = some later.pid) (new : t.cpu ∉ rest.map (·.cpu)) :
    ∀ later ∈ rest, d.current? later.cpu = some later.pid := by
  intro later member
  rw [ends.current, if_neg]
  · exact here later (List.mem_cons_of_mem _ member)
  · exact fun same => new (List.mem_map.mpr ⟨later, member, List.mem_singleton.mp same⟩)

end Ends

/-- A turn ends in one of three ways: for a task that the workload does not know, for one that could run
on, and for one that goes to sleep. -/
theorem endTurn_cases {t : Turn} {stopped : Option Pid}
    (result : ∀ runnable, (c.stop t.cpu t.ran runnable).1 = .ok stopped) :
    (w.bursts.get? t.pid = none ∧ w.endTurn c t = ((.ok (), w), (c.stop t.cpu t.ran false).2)) ∨
      ∃ burst left, w.bursts.get? t.pid = some burst ∧
        let v := { w with bursts := w.bursts.insert t.pid { burst with left } }
        w.endTurn c t = ((.ok (), v), (c.stop t.cpu t.ran true).2) ∨
          w.endTurn c t = ((.ok (), { v with
            sleepers := Sleeper.insert ⟨c.clock + burst.profile.sleep, t.pid⟩ w.sleepers }),
            (c.stop t.cpu t.ran false).2) := by
  have stop : ∀ runnable, c.stop t.cpu t.ran runnable =
      (.ok stopped, (c.stop t.cpu t.ran runnable).2) := fun runnable => Prod.ext (result runnable) rfl
  unfold endTurn
  dsimp only
  rw [stop true, stop false]
  cases w.bursts.get? t.pid with
  | none => exact .inl ⟨rfl, rfl⟩
  | some burst =>
    right
    dsimp only
    split
    · exact ⟨burst, _, rfl, .inr rfl⟩
    · exact ⟨burst, _, rfl, .inl rfl⟩

theorem endTurn_ends (tends : Tends profiles w c) {t : Turn} (here : c.current? t.cpu = some t.pid) :
    (w.endTurn c t).1.1 = .ok () ∧
      Ends profiles [t.cpu] w c (w.endTurn c t).1.2 (w.endTurn c t).2 := by
  have stops := fun runnable => tends.steady.stops here t.ran runnable
  have current : ∀ runnable cpu, (c.stop t.cpu t.ran runnable).2.current? cpu =
      if cpu ∈ [t.cpu] then none else c.current? cpu := fun runnable cpu => by
    simpa only [List.mem_singleton] using (stops runnable).2.2.1 cpu
  rcases w.endTurn_cases fun runnable => (stops runnable).1 with
    ⟨unknown, ended⟩ | ⟨burst, left, found, ended | ended⟩ <;> rw [ended]
  · have foreign : ∀ p ∈ profiles, p.pid ≠ t.pid := by
      intro p member same
      obtain ⟨left, known⟩ := tends.known p member
      rw [same, unknown] at known
      cases known
    exact ⟨rfl, tends.dismisses here foreign t.ran, c.stop_clock .., current false, fun _ => id,
      fun _ => .inl⟩
  · exact ⟨rfl, (tends.spends found left).requeues here t.ran, c.stop_clock .., current true, fun _ => id,
      fun _ => .inl⟩
  · obtain ⟨mine, same⟩ := tends.own t.pid burst found
    have line := Sleeper.insert_perm ⟨c.clock + burst.profile.sleep, t.pid⟩ w.sleepers
    refine ⟨rfl, (tends.spends found left).retires here _ t.ran, c.stop_clock .., current false,
      fun s member => line.mem_iff.mpr (List.mem_cons_of_mem _ member), fun s member => ?_⟩
    rcases List.mem_cons.mp (line.mem_iff.mp member) with rfl | before
    · exact .inr ⟨burst.profile, mine, by rw [same]⟩
    · exact .inl before

theorem endTurns_ends (tends : Tends profiles w c) {turns : List Turn}
    (here : ∀ t ∈ turns, c.current? t.cpu = some t.pid) (apart : (turns.map (·.cpu)).Nodup) :
    (w.endTurns c turns).1.1 = .ok () ∧
      Ends profiles (turns.map (·.cpu)) w c (w.endTurns c turns).1.2 (w.endTurns c turns).2 := by
  induction turns generalizing w c with
  | nil => exact ⟨rfl, .nobody tends⟩
  | cons t rest ih =>
    obtain ⟨new, apart⟩ := List.nodup_cons.mp apart
    obtain ⟨result, ends⟩ := endTurn_ends tends (here t List.mem_cons_self)
    unfold endTurns
    generalize w.endTurn c t = ended at result ends
    obtain ⟨⟨_, v⟩, d⟩ := ended
    cases result
    obtain ⟨result, later⟩ := ih ends.tends (ends.later here new) apart
    exact ⟨result, ends.trans later⟩

end LoadableSched.Workload
