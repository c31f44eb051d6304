import LoadableSched.Proofs.Class.Copying
import LoadableSched.Proofs.Class.Leading
import LoadableSched.Proofs.Class.Standing

/-!
The records of tasks bear the number and the last processor that the callbacks of a task are given. All that
the class writes there fits; only the record that a policy returns when a task comes under it is taken as it
is.
-/

namespace LoadableSched.SchedClass

variable {ω : Type} {c d e : SchedClass ω} {cpu : CpuId} {pid : Pid} {policy : Policy ω}

namespace Inquiry

/-- A task comes under the policy, and the record that the policy returns for it does not fit. -/
def Spoils (i : Inquiry ω) : Prop :=
  ∃ pid task record, i.matter = .enable pid task ∧ i.failure = none ∧ i.ran.1 = .record record ∧
    ¬ (record.pid = pid ∧ record.lastCpu < i.before.cpus)

theorem not_spoils (i : Inquiry ω) (other : ¬ i.Enables) : ¬ i.Spoils := by
  rintro ⟨pid, task, _, enables, _⟩
  exact other ⟨pid, task, enables⟩

end Inquiry

def subject? (c : SchedClass ω) : Operation ω → Option Pid
  | .addTask task => some task.pid
  | .wake pid _ => some pid
  | .enqueue pid _ => some pid
  | .stop cpu _ _ => c.current? cpu
  | _ => none

def Names (c : SchedClass ω) (op : Operation ω) (i : Inquiry ω) : Prop :=
  match i.matter with
  | .init => True
  | .selectCpu task _ => c.subject? op = some task.pid
  | .enqueue pid task _ _ => c.subject? op = some task.pid ∧ task.pid = pid
  | .dispatch cpu previous => ∀ task, previous = some task → c.previous[cpu]?.join = some task.pid
  | .running cpu task => i.before.current? cpu = some task.pid
  | .stopping _ task _ => c.subject? op = some task.pid
  | .enable pid task => task.pid = pid

structure Addresses (c : SchedClass ω) (op : Operation ω) (i : Inquiry ω) : Prop where
  cpu : i.matter.cpu < c.cpus
  task : c.Names op i

/-! Tasks that come under a policy. -/

theorem Inquiry.after_entered {i : Inquiry ω} {task : Task} (enables : i.matter = .enable pid task)
    (fine : i.failure = none) :
    ∃ record, i.ran.1 = .record record ∧ i.after = i.called.mapTask pid fun _ => record := by
  have proper : i.misuses = [] := by
    have none := i.failure_eq.symm.trans fine
    simp only [List.head?_eq_none_iff, reasons, reasonsOn, List.append_eq_nil_iff] at none
    exact none.1.1.1
  have quiet := Inquiry.ran_proper proper
  rw [Inquiry.after_fine fine]
  obtain ⟨before, policy, matter⟩ := i
  cases enables
  simp only [ran, Policy.answer, Matter.cpu, invoke_map] at quiet
  refine ⟨(before.invoke task.lastCpu (policy.enable task)).1, ?_, ?_⟩
  · simp [ran, Policy.answer, Matter.cpu, invoke_map]
  · simp [reached, heed, called, ran, Policy.answer, Matter.cpu, invoke_map, call_proper quiet]

theorem enable_cases (c : SchedClass ω) (pid : Pid) :
    c.enableInquiries pid = [] ∧ c.enable pid = c ∨
    ∃ policy slot, c.tasks.get? pid = some slot ∧
      c.enableInquiries pid = [⟨c, policy, .enable pid slot.task⟩] ∧
      c.enable pid = Inquiry.after ⟨c, policy, .enable pid slot.task⟩ := by
  unfold enable enableWith enableInquiries task?
  cases c.policy with
  | none => exact .inl ⟨rfl, rfl⟩
  | some policy =>
    cases found : c.tasks.get? pid with
    | none => exact .inl ⟨rfl, rfl⟩
    | some slot => exact .inr ⟨policy, slot, rfl, rfl, (after_enable policy pid slot.task).symm⟩

theorem enable_others (c : SchedClass ω) (pid : Pid) :
    (c.enable pid).cpus = c.cpus ∧ ∀ other, other ≠ pid → (c.enable pid).tag? other = c.tag? other := by
  rcases c.enable_cases pid with ⟨_, same⟩ | ⟨policy, slot, _, _, after⟩
  · rw [same]
    exact ⟨rfl, fun _ _ => rfl⟩
  · rw [after]
    cases fine : Inquiry.failure ⟨c, policy, .enable pid slot.task⟩ with
    | some reason =>
      have copies := Inquiry.after_copies (i := ⟨c, policy, .enable pid slot.task⟩) (.inr (by simp [fine]))
      exact ⟨copies.cpus, fun other _ => copies.tag other⟩
    | none =>
      obtain ⟨record, _, entered⟩ := Inquiry.after_entered rfl fine
      rw [entered]
      refine ⟨c.invoke_cpus _ _, fun other apart => ?_⟩
      rw [tag?, mapTask, Table.get?_modify, if_neg apart]
      rfl

theorem enable_fits_others {pids : List Pid} (fresh : pid ∉ pids) (fits : ∀ other ∈ pids, c.Fits other) :
    ∀ other ∈ pids, (c.enable pid).Fits other := by
  obtain ⟨cpus, others⟩ := c.enable_others pid
  intro other member
  have apart : other ≠ pid := fun same => fresh (same ▸ member)
  exact (fits_congr cpus (others other apart)).mpr (fits other member)

theorem enable_fits_iff (fits : c.Fits pid) :
    (c.enable pid).Fits pid ↔ ∀ i ∈ c.enableInquiries pid, ¬ i.Spoils := by
  rcases c.enable_cases pid with ⟨none, same⟩ | ⟨policy, slot, found, one, after⟩
  · rw [none, same]
    exact iff_of_true fits (by simp)
  · rw [one, after, List.forall_mem_singleton]
    cases fine : Inquiry.failure ⟨c, policy, .enable pid slot.task⟩ with
    | some reason =>
      have copies := Inquiry.after_copies (i := ⟨c, policy, .enable pid slot.task⟩) (.inr (by simp [fine]))
      refine iff_of_true ((copies.fits_iff pid).mpr fits) ?_
      rintro ⟨_, _, _, _, succeeded, _⟩
      rw [fine] at succeeded
      cases succeeded
    | none =>
      obtain ⟨record, answer, entered⟩ := Inquiry.after_entered rfl fine
      have called : (Inquiry.called ⟨c, policy, .enable pid slot.task⟩).cpus = c.cpus := c.invoke_cpus _ _
      have written : (Inquiry.after ⟨c, policy, .enable pid slot.task⟩).Fits pid ↔
          record.pid = pid ∧ record.lastCpu < c.cpus := by
        have there : (Inquiry.called ⟨c, policy, .enable pid slot.task⟩).tasks.get? pid = some slot := found
        rw [entered]
        simp only [Fits, mapTask, Table.get?_modify, if_true, there, Option.map_some, Option.some.injEq,
          forall_eq']
        rw [← called]
        rfl
      rw [written, ← not_iff_not, not_not]
      constructor
      · exact fun misfit => ⟨pid, slot.task, record, rfl, fine, answer, misfit⟩
      · rintro ⟨_, _, _, same, _, returned, misfit⟩
        cases same
        cases answer.symm.trans returned
        exact misfit

theorem enableAll_fits_iff {pids : List Pid} (distinct : pids.Nodup) (fits : ∀ pid ∈ pids, c.Fits pid) :
    ((pids.foldl enable c).cpus = c.cpus ∧ ∀ pid ∉ pids, (pids.foldl enable c).tag? pid = c.tag? pid) ∧
    ((∀ pid ∈ pids, (pids.foldl enable c).Fits pid) ↔ ∀ i ∈ c.enableAllInquiries pids, ¬ i.Spoils) := by
  induction pids generalizing c with
  | nil => simp [enableAllInquiries]
  | cons first rest ih =>
    obtain ⟨fresh, distinct⟩ := List.nodup_cons.mp distinct
    obtain ⟨own, others⟩ := List.forall_mem_cons.mp fits
    obtain ⟨cpus, kept⟩ := c.enable_others first
    obtain ⟨⟨cpus', same⟩, iff⟩ := ih distinct (enable_fits_others fresh others)
    constructor
    · refine ⟨cpus'.trans cpus, fun pid absent => ?_⟩
      obtain ⟨apart, later⟩ := not_or.mp (mt List.mem_cons.mpr absent)
      exact (same pid later).trans (kept pid apart)
    · rw [List.forall_mem_cons, enableAllInquiries, List.forall_mem_append, ← iff, ← enable_fits_iff own]
      exact and_congr_left fun _ => fits_congr cpus' (same first fresh)

theorem enableAll_recorded_iff (recorded : c.Recorded) {pids : List Pid} (distinct : pids.Nodup) :
    (pids.foldl enable c).Recorded ↔ ∀ i ∈ c.enableAllInquiries pids, ¬ i.Spoils := by
  obtain ⟨⟨cpus, others⟩, iff⟩ := enableAll_fits_iff distinct fun pid _ => recorded pid
  rw [← iff]
  constructor
  · exact fun all pid _ => all pid
  · intro fine pid
    by_cases member : pid ∈ pids
    · exact fine pid member
    · exact (fits_congr cpus (others pid member)).mpr (recorded pid)

theorem enable_addresses (fits : c.Fits pid) (op : Operation ω) :
    ∀ i ∈ c.enableInquiries pid, i.matter.cpu < c.cpus ∧ d.Names op i := by
  rcases c.enable_cases pid with ⟨none, _⟩ | ⟨policy, slot, found, one, _⟩
  · simp [none]
  · rw [one, List.forall_mem_singleton]
    exact ⟨(fits slot found).2, (fits slot found).1⟩

theorem enableAll_addresses {pids : List Pid} (distinct : pids.Nodup) (fits : ∀ pid ∈ pids, c.Fits pid)
    {op : Operation ω} : ∀ i ∈ c.enableAllInquiries pids, i.matter.cpu < c.cpus ∧ d.Names op i := by
  induction pids generalizing c with
  | nil => simp [enableAllInquiries]
  | cons first rest ih =>
    obtain ⟨fresh, distinct⟩ := List.nodup_cons.mp distinct
    obtain ⟨own, others⟩ := List.forall_mem_cons.mp fits
    rw [enableAllInquiries, List.forall_mem_append]
    have later := ih distinct (enable_fits_others fresh others)
    exact ⟨enable_addresses own op, (c.enable_others first).1 ▸ later⟩

/-! Operations that bring no task under a policy. -/

theorem takeNext_current (c : SchedClass ω) (cpu : CpuId) : (c.takeNext cpu).2.current = c.current := by
  unfold takeNext
  split
  · rfl
  · split <;> rfl

structure Minds (c : SchedClass ω) (op : Operation ω) (is : List (Inquiry ω)) (d : SchedClass ω) : Prop where
  recorded : d.Recorded
  calls : ∀ i ∈ is, ¬ i.Enables ∧ c.Addresses op i

/-- After an operation the records fit unless a policy spoiled one, and its callbacks are for the tasks that
they are given. -/
structure Records (c : SchedClass ω) (op : Operation ω) (is : List (Inquiry ω)) (d : SchedClass ω) : Prop where
  recorded_iff : d.Recorded ↔ ∀ i ∈ is, ¬ i.Spoils
  addresses : ∀ i ∈ is, c.Addresses op i

namespace Minds

variable {op : Operation ω} {is js : List (Inquiry ω)}

theorem still (recorded : d.Recorded) : c.Minds op [] d := ⟨recorded, fun _ member => absurd member List.not_mem_nil⟩

theorem cons {i : Inquiry ω} (other : ¬ i.Enables) (addresses : c.Addresses op i) (later : c.Minds op is d) :
    c.Minds op (i :: is) d where
  recorded := later.recorded
  calls := List.forall_mem_cons.mpr ⟨⟨other, addresses⟩, later.calls⟩

theorem one {i : Inquiry ω} (other : ¬ i.Enables) (addresses : c.Addresses op i) (recorded : d.Recorded) :
    c.Minds op [i] d := cons other addresses (still recorded)

theorem append (first : c.Minds op is d) (later : c.Minds op js e) : c.Minds op (is ++ js) e where
  recorded := later.recorded
  calls := List.forall_mem_append.mpr ⟨first.calls, later.calls⟩

theorem records (minds : c.Minds op is d) : c.Records op is d where
  recorded_iff := iff_of_true minds.recorded fun i member => i.not_spoils (minds.calls i member).1
  addresses i member := (minds.calls i member).2

end Minds

section

variable {op : Operation ω} (recorded : d.Recorded)

include recorded

theorem enqueueWith_minds (about : c.subject? op = some pid) (known : cpu < c.cpus) (flags : UInt64) :
    c.Minds op (d.enqueueWithInquiries policy pid cpu flags) (d.enqueueWith policy pid cpu flags) := by
  have after := (Copies.enqueueWith d policy pid cpu flags).recorded_iff.mpr recorded
  unfold enqueueWithInquiries
  cases found : d.tasks.get? pid with
  | none =>
    simp only [task?, found, Option.map_none]
    exact .still after
  | some slot =>
    obtain ⟨number, _⟩ := recorded pid slot found
    simp only [task?, found, Option.map_some]
    exact .one (by simp [Inquiry.Enables]) ⟨known, number.symm ▸ about, number⟩ after

theorem enqueueGlobal_recorded (made : d.enqueueGlobal pid = .ok e) : e.Recorded :=
  (Copies.enqueueGlobal made).recorded_iff.mpr recorded

end

section

variable (recorded : c.Recorded)

include recorded

theorem wake_minds (pid : Pid) (flags : UInt64) :
    c.Minds (.wake pid flags) (c.wakeInquiries pid flags) (c.wake pid flags).2 := by
  unfold wake wakeInquiries
  cases found : c.tasks.get? pid with
  | none => exact .still recorded
  | some slot =>
    obtain ⟨number, known⟩ := recorded pid slot found
    dsimp only
    split
    · exact .still recorded
    have copies := Copies.setState c pid .queued
    have recorded := copies.recorded_iff.mpr recorded
    generalize c.setState pid .queued = d at copies recorded ⊢
    cases d.policy with
    | none =>
      dsimp only
      split
      · exact .still recorded
      · rename_i made
        exact .still (enqueueGlobal_recorded recorded made)
    | some policy =>
      have reached : d.Copies (d.chooseCpu policy slot.task flags).2 :=
        Inquiry.reached_copies (i := ⟨d, policy, .selectCpu slot.task flags⟩) (.inl (by simp [Inquiry.Enables]))
      refine .cons (by simp [Inquiry.Enables]) ⟨known, congrArg some number.symm⟩ ?_
      dsimp only
      cases chosen : d.chooseCpu policy slot.task flags with
      | mk answer e =>
        rw [chosen] at reached
        have recorded := reached.recorded_iff.mpr recorded
        cases answer with
        | error reason => exact .still ((Copies.abort e reason).recorded_iff.mpr recorded)
        | ok made =>
          obtain ⟨cpu, placed⟩ := made
          obtain ⟨_, inside⟩ := chooseCpu_inv chosen
          have entered : (e.mapTask pid fun task => { task with lastCpu := cpu }).Recorded :=
            recorded.modify pid _ fun slot found => ⟨(recorded pid slot found).1, reached.cpus ▸ inside⟩
          dsimp only
          split
          · exact .still entered
          · exact enqueueWith_minds entered rfl (copies.cpus ▸ inside) 0

theorem enqueue_minds (pid : Pid) (flags : UInt64) :
    c.Minds (.enqueue pid flags) (c.enqueueInquiries pid flags) (c.enqueue pid flags).2 := by
  unfold enqueue enqueueInquiries
  cases found : c.tasks.get? pid with
  | none => exact .still recorded
  | some slot =>
    obtain ⟨_, known⟩ := recorded pid slot found
    dsimp only
    split
    · exact .still recorded
    have recorded := (Copies.setState c pid .queued).recorded_iff.mpr recorded
    generalize c.setState pid .queued = d at recorded ⊢
    cases d.policy with
    | none =>
      dsimp only
      split
      · exact .still recorded
      · rename_i made
        exact .still (enqueueGlobal_recorded recorded made)
    | some policy => exact enqueueWith_minds recorded rfl known flags

theorem refill_minds (known : cpu < c.cpus) :
    c.Minds (.pickNext cpu) (c.refillInquiries cpu) (c.refill cpu) := by
  have after := (Copies.refill c cpu).recorded_iff.mpr recorded
  unfold refillInquiries
  cases c.policy with
  | none => exact .still after
  | some policy =>
    dsimp only
    split
    · exact .still after
    · refine .one (by simp [Inquiry.Enables]) ⟨known, ?_⟩ after
      intro task waits
      unfold previousWaiting at waits
      split at waits
      · cases waits
      · rename_i pid there
        split at waits
        · cases waits
        · rename_i slot found
          split at waits <;> cases waits
          rw [there, (recorded pid slot found).1]

theorem run_minds {op : Operation ω} (known : cpu < c.cpus) (inside : cpu < d.cpus)
    (processors : c.current.length = c.cpus) (pid : Pid) :
    d.Minds op (c.runInquiries cpu pid) (c.run cpu pid).2 := by
  have occupied : (c.occupy cpu pid).Recorded := recorded
  have here : (c.occupy cpu pid).current? cpu = some pid := by
    simp [current?, occupy, processors, known]
  have known : cpu < (c.occupy cpu pid).cpus := known
  unfold run runInquiries
  dsimp only
  generalize c.occupy cpu pid = e at occupied here known ⊢
  cases found : e.tasks.get? pid with
  | none => exact .still occupied
  | some slot =>
    obtain ⟨number, _⟩ := occupied pid slot found
    have engaged : (e.engage cpu pid).Recorded :=
      occupied.modify pid _ fun slot found => ⟨(occupied pid slot found).1, known⟩
    have after := (Copies.start _ cpu (slot.task.startOn cpu)).recorded_iff.mpr engaged
    dsimp only
    unfold startInquiries
    cases (e.engage cpu pid).policy with
    | none => exact .still after
    | some policy =>
      exact .one (by simp [Inquiry.Enables]) ⟨inside, here.trans (congrArg some number.symm)⟩ after

theorem pickNext_minds (agrees : c.Agrees []) (processors : c.current.length = c.cpus) (cpu : CpuId) :
    c.Minds (.pickNext cpu) (c.pickNextInquiries cpu) (c.pickNext cpu).2 := by
  unfold pickNext pickNextInquiries
  split
  · exact .still recorded
  rename_i inside
  have known := Nat.lt_of_not_le inside
  cases c.current? cpu with
  | some pid => exact .still recorded
  | none =>
    have copies := (Copies.refill c cpu).trans (.takeNext _ cpu)
    have current : ((c.refill cpu).takeNext cpu).2.current = c.current :=
      (takeNext_current _ cpu).trans (refill_serves agrees cpu).1.current
    have recorded' := copies.recorded_iff.mpr recorded
    apply (refill_minds recorded known).append
    dsimp only
    generalize (c.refill cpu).takeNext cpu = taken at copies current recorded' ⊢
    obtain ⟨_ | _ | pid, d⟩ := taken
    · exact .still recorded'
    · exact .still recorded'
    · exact run_minds recorded' (copies.cpus ▸ known) known (by rw [current, processors, copies.cpus]) pid

theorem settleStopped_minds (op : Operation ω) (known : cpu < d.cpus)
    (about : d.subject? op = some pid) (runnable : Bool) :
    d.Minds op (c.settleStoppedInquiries cpu pid runnable) (c.settleStopped cpu pid runnable).2 := by
  unfold settleStopped settleStoppedInquiries
  split
  · exact .still recorded
  split
  · exact .still ((Copies.setState c pid .sleeping).recorded_iff.mpr recorded)
  have recorded := (Copies.setState c pid .queued).recorded_iff.mpr recorded
  generalize c.setState pid .queued = e at recorded ⊢
  dsimp only
  cases e.policy with
  | none =>
    dsimp only
    split
    · exact .still recorded
    · rename_i made
      exact .still (enqueueGlobal_recorded recorded made)
  | some policy => exact enqueueWith_minds recorded about known 0

theorem stop_minds (cpu : CpuId) (ran : Nanos) (runnable : Bool) :
    c.Minds (.stop cpu ran runnable) (c.stopInquiries cpu ran runnable) (c.stop cpu ran runnable).2 := by
  unfold stop stopInquiries
  split
  · exact .still recorded
  rename_i inside
  have known := Nat.lt_of_not_le inside
  cases here : c.current? cpu with
  | none => exact .still recorded
  | some pid =>
    dsimp only
    have vacated : (c.vacate cpu pid).Recorded := recorded
    generalize c.vacate cpu pid = d at vacated ⊢
    cases found : d.tasks.get? pid with
    | none => exact .still vacated
    | some slot =>
      obtain ⟨number, processor⟩ := vacated pid slot found
      have charged : (d.mapTask pid fun _ => slot.task.charge ran).Recorded :=
        vacated.modify pid _ fun _ _ => ⟨number, processor⟩
      have halted := Copies.halt (d.mapTask pid fun _ => slot.task.charge ran) cpu (slot.task.charge ran) runnable
      have after := halted.recorded_iff.mpr charged
      have settled := settleStopped_minds after (.stop cpu ran runnable) known here runnable
      dsimp only
      unfold haltInquiries
      cases (d.mapTask pid fun _ => slot.task.charge ran).policy with
      | none => exact settled
      | some policy =>
        exact .cons (by simp [Inquiry.Enables]) ⟨known, here.trans (congrArg some number.symm)⟩ settled

theorem removeTask_recorded (pid : Pid) : (c.removeTask pid).2.Recorded := by
  have erased : ({ c with tasks := c.tasks.erase pid } : SchedClass ω).Recorded := by
    intro other slot found
    rw [Table.get?_erase] at found
    split at found
    · cases found
    · exact recorded other slot found
  unfold removeTask
  split
  · exact recorded
  · dsimp only
    split
    · exact erased
    · have copies : ({ c with tasks := c.tasks.erase pid } : SchedClass ω).Copies
          { c with tasks := c.tasks.erase pid, queues := (c.queues.remove pid).2 } :=
        .of_tasks (c.queues.remove_cpus pid) rfl
      exact copies.recorded_iff.mpr erased
    · exact erased

/-! Operations that bring tasks under a policy. -/

theorem addTask_records (positive : 0 < c.cpus) (task : Task) :
    c.Records (.addTask task) (c.addTaskInquiries task) (c.addTask task).2 := by
  unfold addTask addTaskInquiries
  split
  · exact (Minds.still recorded).records
  · have registered := recorded.register positive task
    have fits := enableAll_recorded_iff registered (List.nodup_singleton task.pid)
    simp only [List.foldl_cons, List.foldl_nil, enableAllInquiries, List.append_nil] at fits
    refine ⟨fits, fun i member => ?_⟩
    obtain ⟨known, names⟩ := enable_addresses (registered task.pid) (.addTask task) i member
    exact ⟨known, names⟩

theorem install_records (tidy : c.Tidy) (positive : 0 < c.cpus) (policy : Policy ω) :
    c.Records (.install policy) (c.installInquiries policy) (c.install policy).2 := by
  unfold install installInquiries
  cases c.policy with
  | some active => exact (Minds.still recorded).records
  | none =>
    have copies : c.Copies { c with policy := some policy } := .of_tasks rfl rfl
    have tidy : ({ c with policy := some policy } : SchedClass ω).Tidy := ⟨tidy.queues, tidy.tasks⟩
    dsimp only
    generalize ({ c with policy := some policy } : SchedClass ω) = d at copies tidy ⊢
    have other : ¬ Inquiry.Enables ⟨d, policy, .init⟩ := by simp [Inquiry.Enables]
    have reached : d.Copies (d.introduce policy).2 := Inquiry.reached_copies (.inl other)
    have tidy : (d.introduce policy).2.Tidy := Tidy.reached (i := ⟨d, policy, .init⟩) tidy
    have addresses : c.Addresses (.install policy) ⟨d, policy, .init⟩ := ⟨positive, trivial⟩
    generalize d.introduce policy = entered at reached tidy ⊢
    obtain ⟨_ | _, e⟩ := entered
    · have gone := (copies.trans reached).trans (.unseat e)
      exact (Minds.one other addresses (gone.recorded_iff.mpr recorded)).records
    · have recorded : e.Recorded := (copies.trans reached).recorded_iff.mpr recorded
      have distinct := tidy.tasks.nodup
      have cpus : e.cpus = c.cpus := (copies.trans reached).cpus
      constructor
      · rw [List.forall_mem_cons, and_iff_right (Inquiry.not_spoils _ other)]
        exact enableAll_recorded_iff recorded distinct
      · apply List.forall_mem_cons.mpr ⟨addresses, _⟩
        intro i member
        obtain ⟨known, names⟩ := enableAll_addresses distinct (fun pid _ => recorded pid) i member
        exact ⟨cpus ▸ known, names⟩

theorem step_records (agrees : c.Agrees []) (processors : c.current.length = c.cpus)
    (positive : 0 < c.cpus) (op : Operation ω) : c.Records op (c.inquiries op) (c.step op) := by
  cases op with
  | install policy => exact install_records recorded ⟨agrees.queues, agrees.tasks⟩ positive policy
  | addTask task => exact addTask_records recorded positive task
  | uninstall =>
    have copies : c.Copies c.uninstall.2 := by
      unfold uninstall
      split
      · exact .refl c
      · exact .unseat c
    exact (Minds.still (copies.recorded_iff.mpr recorded)).records
  | removeTask pid => exact (Minds.still (removeTask_recorded recorded pid)).records
  | wake pid flags => exact (wake_minds recorded pid flags).records
  | enqueue pid flags => exact (enqueue_minds recorded pid flags).records
  | pickNext cpu => exact (pickNext_minds recorded agrees processors cpu).records
  | stop cpu ran runnable => exact (stop_minds recorded cpu ran runnable).records
  | advanceClock delta =>
    have copies : c.Copies (c.step (.advanceClock delta)) := .of_tasks rfl rfl
    exact (Minds.still (copies.recorded_iff.mpr recorded)).records
  | setMemory memory =>
    have copies : c.Copies (c.step (.setMemory memory)) := .of_tasks rfl rfl
    exact (Minds.still (copies.recorded_iff.mpr recorded)).records

end

/-! Runs. -/

/-- All records fit after each step of a run exactly if they did before and no callback spoils one. -/
theorem steps_recorded_iff (agrees : c.Agrees []) (backed : c.Backed []) (positive : 0 < c.cpus)
    (ops : List (Operation ω)) :
    (∀ early, early <+: ops → (c.steps early).Recorded) ↔
      c.Recorded ∧ ∀ i ∈ c.allInquiries ops, ¬ i.Spoils := by
  induction ops generalizing c with
  | nil => simp [allInquiries, steps]
  | cons op rest ih =>
    have carries := step_carries agrees backed op
    have later := ih carries.agrees carries.backed (carries.cpus ▸ positive)
    have split : (∀ early, early <+: op :: rest → (c.steps early).Recorded) ↔
        c.Recorded ∧ ∀ early, early <+: rest → ((c.step op).steps early).Recorded := by
      constructor
      · intro all
        exact ⟨all [] (List.nil_prefix), fun early before => all (op :: early) (by simpa using before)⟩
      · rintro ⟨first, all⟩ early before
        rcases List.prefix_cons_iff.mp before with rfl | ⟨early, rfl, before⟩
        · exact first
        · exact all early (by simpa using before)
    rw [split, later, allInquiries, List.forall_mem_append]
    apply and_congr_right
    intro recorded
    exact and_congr_left' (step_records recorded agrees backed.processors positive op).recorded_iff

/-- Whatever policies are installed: the record of every registered task bears its number and a processor
that exists, after each step of a run, exactly if no policy returned another record when a task came under it.
As long as that is so, every callback runs for a processor that exists, and the record that it is given is that
of the task that it is made for. -/
theorem records_fit_iff (cpus : Nat) (memory : ω) (ops : List (Operation ω)) :
    ((∀ early, early <+: ops → ((new cpus memory).steps early).Recorded) ↔
      ∀ i ∈ (new cpus memory).allInquiries ops, ¬ i.Spoils) ∧
    (((new cpus memory).steps ops).Recorded → ∀ op, ∀ i ∈ ((new cpus memory).steps ops).inquiries op,
      ((new cpus memory).steps ops).Addresses op i) := by
  obtain ⟨agrees, backed, _⟩ := new_agrees cpus memory
  have positive : 0 < (new cpus memory).cpus := (new_healthy cpus memory).positive
  constructor
  · rw [steps_recorded_iff agrees backed positive ops]
    exact and_iff_right nofun
  · intro recorded op
    have after := steps_agree agrees backed ops
    have positive : 0 < ((new cpus memory).steps ops).cpus := (steps_cpus agrees backed ops).symm ▸ positive
    exact (step_records recorded after.1 after.2.processors positive op).addresses

/-- A policy that sends each task that comes under it to a processor that does not exist. -/
def drifter : Policy Unit where
  name := "drifter"
  init := .done 0
  selectCpu _ _ _ := .done 0
  enqueue task _ := .place task.pid globalQueue 1000
  dispatch _ _ := .done ()
  enable task := .done { task with lastCpu := 99 }

theorem drifter_spoils_record :
    ¬ ∀ early, early <+: [.install drifter, .addTask { pid := 1 }] →
      ((new 1 ()).steps early).Recorded := by
  rw [(records_fit_iff 1 () _).1]
  intro fine
  let entering : Inquiry Unit :=
    ⟨((new 1 ()).step (.install drifter)).register { pid := 1 }, drifter, .enable 1 { pid := 1 }⟩
  have asked : entering ∈ (new 1 ()).allInquiries [.install drifter, .addTask { pid := 1 }] :=
    List.mem_cons_of_mem _ List.mem_cons_self
  have spoils : entering.Spoils :=
    ⟨1, { pid := 1 }, { pid := 1, lastCpu := 99 }, rfl, rfl, rfl, by decide⟩
  exact fine entering asked spoils

/-- The callback in which the next policy chooses a processor runs for one that does not exist. -/
theorem record_of_policy_is_taken_as_it_is :
    let c := (new 1 ()).steps [.install drifter, .addTask { pid := 1 }]
    c.task? 1 = some { pid := 1, lastCpu := 99 } ∧ ¬ c.Recorded ∧
      (c.inquiries (.wake 1 0)).map (·.matter.cpu) = [99, 0] := by
  refine ⟨rfl, fun recorded => ?_, rfl⟩
  exact absurd (recorded 1 _ rfl).2 (by decide)

end LoadableSched.SchedClass
