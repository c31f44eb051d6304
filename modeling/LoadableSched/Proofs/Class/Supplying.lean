import LoadableSched.Proofs.Class.Driving

/-!
The slices of running tasks. A task starts with some of its slice left, and loses of it only when it is taken
off its processor.
-/

namespace LoadableSched

variable {ω : Type}

theorem Task.startOn_slice (t : Task) (cpu : CpuId) : (t.startOn cpu).slice ≠ 0 := by
  by_cases used : t.slice = 0
  · have renewed : (t.startOn cpu).slice = defaultSlice := if_pos used
    rw [renewed]
    decide
  · rwa [Task.startOn, if_neg used]

namespace SchedClass

variable {c d : SchedClass ω} {cpu : CpuId} {pid : Pid}

theorem current?_of_set_none (c : SchedClass ω) {cpu other : CpuId} {pid : Pid}
    (here : (c.current.set cpu none)[other]?.join = some pid) : c.current? other = some pid := by
  have left := (current?_set c cpu none other).symm.trans here
  rw [ite_self] at left
  split at left
  · cases left
  · exact left

/-- A policy that is installed leaves tasks their slices when they come under it. -/
def Operation.LeavesSlices : Operation ω → Prop
  | .install policy => ∀ cpu now p task, ((policy.enable task).run cpu now p).1.slice = task.slice
  | _ => True

namespace Supplied

theorem new (cpus : Nat) (memory : ω) : (SchedClass.new cpus memory).Supplied where
  slices _ _ _ _ found := by cases found
  enables _ active := by cases active

variable (supplied : c.Supplied)

include supplied

theorem setState {state : RunState} (rests : ∀ cpu, state ≠ .running cpu) (pid : Pid) :
    (c.setState pid state).Supplied :=
  supplied.modify fun cpu _ _ _ runs => absurd runs (rests cpu)

theorem register (task : Task) : (c.register task).Supplied where
  slices cpu pid slot here found runs := by
    simp only [SchedClass.register, Table.get?_insert] at found
    split at found
    · cases found
      cases runs
    · exact supplied.slices cpu pid slot here found runs
  enables := supplied.enables

theorem of_fewer {tasks : Table Pid Slot} {queues : Queues} {current previous : List (Option Pid)}
    (fewer : ∀ pid slot, tasks.get? pid = some slot → c.tasks.get? pid = some slot)
    (free : ∀ cpu pid, current[cpu]?.join = some pid → c.current? cpu = some pid) :
    ({ c with tasks, queues, current, previous } : SchedClass ω).Supplied where
  slices cpu pid slot here found runs :=
    supplied.slices cpu pid slot (free cpu pid here) (fewer pid slot found) runs
  enables := supplied.enables

theorem vacate (cpu : CpuId) (pid : Pid) : (c.vacate cpu pid).Supplied :=
  supplied.of_fewer (fun _ _ => id) fun _ _ => c.current?_of_set_none

theorem engage (queued : c.state? pid = some .queued) (known : cpu < c.current.length) :
    ((c.occupy cpu pid).engage cpu pid).Supplied := by
  have occupied : (c.occupy cpu pid).Supplied := by
    refine ⟨fun other pid' slot here found runs => ?_, supplied.enables⟩
    have there := (current?_set c cpu (some pid) other).symm.trans here
    split at there
    · -- Whoever is about to start was waiting so far.
      cases there
      have found : c.tasks.get? pid = some slot := found
      rw [state?, found, Option.map_some, runs] at queued
      cases queued
    · exact supplied.slices other pid' slot there found runs
  exact occupied.modify fun _ slot _ _ _ => slot.task.startOn_slice cpu

theorem removeTask (pid : Pid) : (c.removeTask pid).2.Supplied := by
  have fewer : ∀ other slot, (c.tasks.erase pid).get? other = some slot → c.tasks.get? other = some slot := by
    intro other slot found
    rw [Table.get?_erase] at found
    split at found
    · cases found
    · exact found
  unfold SchedClass.removeTask
  split
  · exact supplied
  · dsimp only
    split
    · exact supplied.of_fewer fewer fun _ _ => id
    · exact supplied.of_fewer fewer fun _ _ => id
    · exact supplied.of_fewer fewer fun _ _ => c.current?_of_set_none

end Supplied

theorem pickNext_supplied (steady : c.Steady) (supplied : c.Supplied) (cpu : CpuId) :
    (c.pickNext cpu).2.Supplied := by
  by_cases unknown : c.cpus ≤ cpu
  · rwa [pickNext, if_pos unknown]
  cases free : c.current? cpu with
  | some pid => simpa only [pickNext, if_neg unknown, free] using supplied
  | none =>
    rcases pickNext_keeps steady.agrees steady.healthy.stocked steady.backed (Nat.lt_of_not_le unknown) free with
      ⟨d, idle, keeps⟩ | ⟨pid, d, ran, keeps, loosened, queued, absent, empty, known, supported⟩
    · rw [idle]
      exact keeps.supplied supplied
    · obtain ⟨runs, _⟩ := run_keeps loosened (keeps.stocked steady.healthy.stocked) queued absent empty known
        supported
      rw [ran]
      exact runs.supplied ((keeps.supplied supplied).engage queued
        (Nat.lt_of_lt_of_eq known supported.processors.symm))

theorem stop_supplied (steady : c.Steady) (supplied : c.Supplied) (cpu : CpuId) (ran : Nanos)
    (runnable : Bool) : (c.stop cpu ran runnable).2.Supplied := by
  cases here : c.current? cpu with
  | none =>
    unfold stop
    split
    · exact supplied
    · simpa only [here] using supplied
  | some pid =>
    obtain ⟨d, reached, keeps, after, left, _, _⟩ :=
      stop_keeps steady.agrees steady.healthy steady.backed here ran runnable
    have runs : d.state? pid = some (.running cpu) :=
      (keeps.states pid).trans (steady.healthy.held cpu pid here)
    have rests : ∀ cpu, (if runnable then RunState.queued else .sleeping) ≠ .running cpu := by
      cases runnable <;> exact fun _ same => by cases same
    rw [reached]
    exact (settleStopped_keeps after left runs runnable).supplied
      ((keeps.supplied (supplied.vacate cpu pid)).setState rests pid)

theorem wakes_supplied (steady : c.Steady) (supplied : c.Supplied) (pid : Pid) (flags : UInt64) :
    (c.wake pid flags).2.Supplied ∧ (c.enqueue pid flags).2.Supplied := by
  by_cases asleep : c.state? pid = some .sleeping
  · have entered : (c.setState pid .queued).Supplied := supplied.setState (fun _ same => by cases same) pid
    exact ⟨(wake_keeps steady.agrees steady.healthy asleep flags).2.supplied entered,
      (enqueue_keeps steady.agrees steady.healthy asleep flags).2.supplied entered⟩
  · unfold wake enqueue
    cases found : c.tasks.get? pid with
    | none => exact ⟨supplied, supplied⟩
    | some slot =>
      have awake : slot.state ≠ .sleeping := fun state => asleep (by rw [state?, found, ← state]; rfl)
      simpa only [if_pos awake, and_self] using supplied

theorem step_supplied (steady : c.Steady) (supplied : c.Supplied) (op : Operation ω) (conforms : op.Conforms)
    (leaves : op.LeavesSlices) : (c.step op).Supplied := by
  cases op with
  | install policy =>
    cases free : c.policy with
    | some active =>
      have same : c.step (.install policy) = c := congrArg Prod.snd (install_busy free)
      rwa [same]
    | none =>
      obtain ⟨own, conforms⟩ := conforms
      obtain ⟨d, installed, keeps, after, stocked⟩ :=
        install_introduces steady.agrees steady.healthy free conforms
      have under : ({ c with policy := some policy } : SchedClass ω).Supplied :=
        ⟨supplied.slices, fun _ active => Option.some.inj active ▸ leaves⟩
      have recorded : d.Recorded := keeps.recorded steady.healthy.recorded
      have all := (enableAll_keeps after stocked recorded d.tasks.keys).supplied (keeps.supplied under)
      have result : c.step (.install policy) = _ := congrArg Prod.snd installed
      rw [result]
      exact ⟨all.slices, all.enables⟩
  | uninstall =>
    simp only [step, uninstall]
    split
    · exact supplied
    · have removed : ({ c with policy := none } : SchedClass ω).Agrees [] :=
        steady.agrees.congr rfl steady.agrees.tasks fun _ => rfl
      have unseated : ({ c with policy := none } : SchedClass ω).Supplied :=
        ⟨supplied.slices, fun _ active => by cases active⟩
      exact unseated.of_follows (requeueOrphans_follows removed) (requeueOrphans_policy removed)
  | addTask task =>
    by_cases known : c.tasks.contains task.pid = true
    · simpa only [step, addTask, if_pos known] using supplied
    · exact (addTask_keeps steady.agrees steady.healthy steady.backed known).2.supplied (supplied.register task)
  | removeTask pid => exact supplied.removeTask pid
  | wake pid flags => exact (wakes_supplied steady supplied pid flags).1
  | enqueue pid flags => exact (wakes_supplied steady supplied pid flags).2
  | pickNext cpu => exact pickNext_supplied steady supplied cpu
  | stop cpu ran runnable => exact stop_supplied steady supplied cpu ran runnable
  | advanceClock | setMemory => exact ⟨supplied.slices, supplied.enables⟩

theorem steps_supplied (steady : c.Steady) (supplied : c.Supplied) {ops : List (Operation ω)}
    (conforms : ∀ op ∈ ops, op.Conforms) (leaves : ∀ op ∈ ops, op.LeavesSlices) : (c.steps ops).Supplied := by
  induction ops generalizing c with
  | nil => exact supplied
  | cons op rest ih =>
    have first := conforms op List.mem_cons_self
    exact ih (steady.step op first) (step_supplied steady supplied op first (leaves op List.mem_cons_self))
      (fun op member => conforms op (List.mem_cons_of_mem _ member))
      fun op member => leaves op (List.mem_cons_of_mem _ member)

end SchedClass

end LoadableSched
