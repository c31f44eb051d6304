import LoadableSched.Proofs.Class.Lasting

/-!
What a class without misbehaving policies makes of each operation that drives its tasks: which of them
changes its state, and which processor its current task. Only the clock itself moves the clock.
-/

namespace LoadableSched.SchedClass

variable {ω α : Type} {c d : SchedClass ω}

/-! The clock. -/

theorem wake_clock (c : SchedClass ω) (pid : Pid) (flags : UInt64) : (c.wake pid flags).2.clock = c.clock :=
  c.step_clock fun delta => (nofun : Operation.wake pid flags ≠ .advanceClock delta)

theorem stop_clock (c : SchedClass ω) (cpu : CpuId) (ran : Nanos) (runnable : Bool) :
    (c.stop cpu ran runnable).2.clock = c.clock :=
  c.step_clock fun delta => (nofun : Operation.stop cpu ran runnable ≠ .advanceClock delta)

/-! The states of the tasks, and who runs where. -/

theorem Keeps.current? (h : c.Keeps d) (cpu : CpuId) : d.current? cpu = c.current? cpu := by
  simp only [SchedClass.current?, h.current]

namespace Steady

theorem run (cpus : Nat) (memory : ω) {ops : List (Operation ω)} (conforms : ∀ op ∈ ops, op.Conforms) :
    ((SchedClass.new cpus memory).steps ops).Steady := by
  obtain ⟨agrees, backed, _⟩ := new_agrees cpus memory
  obtain ⟨agrees', backed'⟩ := steps_agree agrees backed ops
  exact ⟨agrees', backed', steps_stand agrees backed (new_healthy cpus memory) conforms⟩

variable (steady : c.Steady)

include steady

theorem enters {task : Task} (fresh : c.state? task.pid = none) :
    (c.addTask task).1 = .ok () ∧ (c.addTask task).2.Steady ∧
      ∀ pid, (c.addTask task).2.state? pid =
        if pid = task.pid then some .sleeping else c.state? pid := by
  have absent : c.tasks.contains task.pid ≠ true := by
    simpa [Table.contains_eq, SchedClass.state?] using fresh
  obtain ⟨result, keeps⟩ := addTask_keeps steady.agrees steady.healthy steady.backed absent
  exact ⟨result, steady.step (.addTask task) trivial, fun pid =>
    (keeps.states pid).trans (c.state?_register task pid)⟩

theorem wakes {pid : Pid} (asleep : c.state? pid = some .sleeping) (flags : UInt64) :
    (c.wake pid flags).1 = .ok () ∧ (c.wake pid flags).2.Steady ∧
      (c.wake pid flags).2.current = c.current ∧
      ∀ other, (c.wake pid flags).2.state? other =
        if other = pid then some .queued else c.state? other := by
  obtain ⟨result, keeps⟩ := wake_keeps steady.agrees steady.healthy asleep flags
  refine ⟨result, steady.step (.wake pid flags) trivial, keeps.current, fun other => ?_⟩
  rw [keeps.states, state?_setState]
  split
  · rename_i same
    rw [same, asleep]
    rfl
  · rfl

theorem picks {cpu : CpuId} (known : cpu < c.cpus) :
    (c.pickNext cpu).2.Steady ∧ (c.pickNext cpu).2.cpus = c.cpus ∧
      ∃ next, (c.pickNext cpu).1 = .ok next ∧
        (∀ other, (c.pickNext cpu).2.current? other =
          if other = cpu then next else c.current? other) ∧
        ∀ pid, (c.pickNext cpu).2.state? pid = c.state? pid ∨
          c.state? pid = some .queued ∧ (c.pickNext cpu).2.state? pid = some (.running cpu) := by
  have carries := step_carries steady.agrees steady.backed (.pickNext cpu)
  refine ⟨steady.step (.pickNext cpu) trivial, carries.cpus, ?_⟩
  cases free : c.current? cpu with
  | some pid =>
    have busy : c.pickNext cpu = (.ok (some pid), c) := by
      simp [pickNext, Nat.not_le_of_lt known, free]
    rw [busy]
    refine ⟨some pid, rfl, fun other => ?_, fun _ => .inl rfl⟩
    split
    · rename_i same
      exact same ▸ free
    · rfl
  | none =>
    rcases pickNext_keeps steady.agrees steady.healthy.stocked steady.backed known free with
      ⟨d, idle, keeps⟩ | ⟨pid, d, ran, keeps, loosened, queued, absent, empty, there, supported⟩
    · rw [idle]
      refine ⟨none, rfl, fun other => ?_, fun pid => .inl (keeps.states pid)⟩
      rw [keeps.current?]
      split
      · rename_i same
        exact same ▸ free
      · rfl
    · have stocked := keeps.stocked steady.healthy.stocked
      obtain ⟨runs, result⟩ := run_keeps loosened stocked queued absent empty there supported
      have processor : cpu < d.current.length := Nat.lt_of_lt_of_eq there supported.processors.symm
      rw [ran]
      refine ⟨some pid, result, fun other => ?_, fun other => ?_⟩
      · rw [runs.current?, current?_engage processor, keeps.current?]
      · rw [runs.states, state?_engage queued]
        split
        · rename_i same
          exact .inr ⟨same ▸ (keeps.states pid).symm.trans queued, rfl⟩
        · exact .inl (keeps.states other)

theorem stops {cpu : CpuId} {pid : Pid} (here : c.current? cpu = some pid) (ran : Nanos)
    (runnable : Bool) :
    (c.stop cpu ran runnable).1 = .ok (some pid) ∧ (c.stop cpu ran runnable).2.Steady ∧
      (∀ other, (c.stop cpu ran runnable).2.current? other =
        if other = cpu then none else c.current? other) ∧
      ∀ other, (c.stop cpu ran runnable).2.state? other =
        if other = pid then some (if runnable then .queued else .sleeping) else c.state? other := by
  obtain ⟨d, reached, keeps, after, left, supported, free⟩ :=
    stop_keeps steady.agrees steady.healthy steady.backed here ran runnable
  have runs : d.state? pid = some (.running cpu) :=
    (keeps.states pid).trans (steady.healthy.held cpu pid here)
  have settled := settleStopped_keeps after left runs runnable
  refine ⟨?_, steady.step (.stop cpu ran runnable) trivial, fun other => ?_, fun other => ?_⟩
  · rw [reached]
    exact (settleStopped_stands after left supported free runnable).2
  · rw [reached, settled.current?]
    refine (keeps.current? other).trans ((current?_set c cpu none other).trans ?_)
    rw [ite_self]
  · rw [reached, settled.states, state?_setState]
    split
    · rename_i same
      rw [same, runs]
      rfl
    · exact keeps.states other

end Steady

end LoadableSched.SchedClass
