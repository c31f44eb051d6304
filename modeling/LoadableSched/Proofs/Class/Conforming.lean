import LoadableSched.Proofs.Class.Dispatching

/-!
Policies that keep the rules of the class, and what the class does with the callbacks of one: it never
finds a misuse, so that the policy stays.
-/

namespace LoadableSched

variable {ω α : Type}

def Queues.Stocks (q : Queues) (own : List QueueId) : Prop :=
  ∀ queue ∈ own, q.shared.contains queue = true

structure Progress.Asks (p : Progress ω) (placements : List Placement) : Prop where
  error : p.error = none
  placements : p.placements = placements

/-- A policy that keeps the rules, with queues of its own. Each callback is given whatever the class may
give it: any memory, any time, and queues that have the policy's own among them. -/
structure Policy.Conforms (p : Policy ω) (own : List QueueId) : Prop where
  shared : ∀ queue ∈ own, queue ≠ localQueue
  init : ∀ now q m, q.OnlyBuiltin →
    (p.init.run 0 now ⟨q, [], none, m⟩).1 = 0 ∧
    (p.init.run 0 now ⟨q, [], none, m⟩).2.Asks [] ∧
    (p.init.run 0 now ⟨q, [], none, m⟩).2.queues.Stocks own
  selectCpu : ∀ cpu now q m task previous flags, q.Stocks own → q.WellFormed → previous < q.cpus →
    ((p.selectCpu task previous flags).run cpu now ⟨q, [], none, m⟩).1 < q.cpus ∧
    ∃ slices : Option Nanos, ((p.selectCpu task previous flags).run cpu now ⟨q, [], none, m⟩).2.Asks
      (slices.toList.map fun slice => ⟨task.pid, localQueue, slice⟩)
  enqueue : ∀ cpu now q m task flags, q.Stocks own → ∃ queue ∈ own, ∃ slice,
    ((p.enqueue task flags).run cpu now ⟨q, [], none, m⟩).2.Asks [⟨task.pid, queue, slice⟩]
  dispatch : ∀ cpu now q m previous, q.Stocks own → cpu < q.cpus →
    ((p.dispatch cpu previous).run cpu now ⟨q, [], none, m⟩).2.Asks []
  running : ∀ cpu now q m task, q.Stocks own →
    ((p.running task).run cpu now ⟨q, [], none, m⟩).2.Asks []
  stopping : ∀ cpu now q m task runnable, q.Stocks own →
    ((p.stopping task runnable).run cpu now ⟨q, [], none, m⟩).2.Asks []
  enable : ∀ cpu now q m task, q.Stocks own →
    ((p.enable task).run cpu now ⟨q, [], none, m⟩).2.error = none ∧
    ((p.enable task).run cpu now ⟨q, [], none, m⟩).1.pid = task.pid ∧
    ((p.enable task).run cpu now ⟨q, [], none, m⟩).1.lastCpu = task.lastCpu

namespace SchedClass

variable {c d e : SchedClass ω} {loose : List Pid} {own : List QueueId} {policy : Policy ω}

def Recorded (c : SchedClass ω) : Prop :=
  ∀ pid slot, c.tasks.get? pid = some slot → slot.task.pid = pid ∧ slot.task.lastCpu < c.cpus

structure Stocked (c : SchedClass ω) : Prop where
  vacant : c.policy = none → c.queues.OnlyBuiltin
  conforms : ∀ policy, c.policy = some policy → ∃ own, policy.Conforms own ∧ c.queues.Stocks own

structure Supplied (c : SchedClass ω) : Prop where
  slices : ∀ cpu pid slot, c.current? cpu = some pid → c.tasks.get? pid = some slot →
    slot.state = .running cpu → slot.task.slice ≠ 0
  enables : ∀ policy, c.policy = some policy → ∀ cpu now p task,
    ((policy.enable task).run cpu now p).1.slice = task.slice

/-- From `c` to `d` nothing happens to the policy, the processors and the states of the tasks. -/
structure Keeps (c d : SchedClass ω) : Prop where
  policy : d.policy = c.policy
  exit : d.exit = c.exit
  cpus : d.cpus = c.cpus
  current : d.current = c.current
  states : ∀ pid, d.state? pid = c.state? pid
  recorded : c.Recorded → d.Recorded
  supplied : c.Supplied → d.Supplied
  stocked : c.Stocked → d.Stocked
  covers : c.queues.Covers d.queues

namespace Keeps

theorem refl (c : SchedClass ω) : c.Keeps c :=
  ⟨rfl, rfl, rfl, rfl, fun _ => rfl, id, id, id, fun _ => id⟩

theorem trans (first : c.Keeps d) (later : d.Keeps e) : c.Keeps e where
  policy := later.policy.trans first.policy
  exit := later.exit.trans first.exit
  cpus := later.cpus.trans first.cpus
  current := later.current.trans first.current
  states pid := (later.states pid).trans (first.states pid)
  recorded before := later.recorded (first.recorded before)
  supplied before := later.supplied (first.supplied before)
  stocked before := later.stocked (first.stocked before)
  covers queue present := later.covers queue (first.covers queue present)

theorem stocks (h : c.Keeps d) (stocks : c.queues.Stocks own) : d.queues.Stocks own :=
  fun queue member => h.covers queue (stocks queue member)

end Keeps

theorem Stocked.of_sameNumbers (stocked : c.Stocked) (policy : d.policy = c.policy)
    (same : c.queues.SameNumbers d.queues) : d.Stocked where
  vacant none queue present :=
    stocked.vacant (policy ▸ none) queue ((same queue).symm.trans present)
  conforms p active := by
    obtain ⟨own, conforms, stocks⟩ := stocked.conforms p (policy ▸ active)
    exact ⟨own, conforms, fun queue member => (same queue).trans (stocks queue member)⟩

theorem Stocked.of_covers (stocked : c.Stocked) (policy : d.policy = c.policy)
    (active : c.policy.isSome) (covers : c.queues.Covers d.queues) : d.Stocked where
  vacant none := by
    rw [← policy, none] at active
    cases active
  conforms p active := by
    obtain ⟨own, conforms, stocks⟩ := stocked.conforms p (policy ▸ active)
    exact ⟨own, conforms, fun queue member => covers queue (stocks queue member)⟩

theorem Recorded.of_follows (recorded : c.Recorded) (h : c.Follows d) : d.Recorded := by
  intro pid slot found
  obtain ⟨before, slice, found', same⟩ := h.task found
  rw [same, h.cpus]
  exact recorded pid before found'

theorem Recorded.modify (recorded : c.Recorded) (pid : Pid) (f : Slot → Slot)
    (valid : ∀ slot, c.tasks.get? pid = some slot →
      (f slot).task.pid = pid ∧ (f slot).task.lastCpu < c.cpus) :
    ({ c with tasks := c.tasks.modify pid f } : SchedClass ω).Recorded :=
  Table.forall_modify recorded valid

theorem Recorded.register (recorded : c.Recorded) (positive : 0 < c.cpus) (task : Task) :
    (c.register task).Recorded := by
  intro pid slot found
  simp only [SchedClass.register, Table.get?_insert] at found
  split at found
  · rename_i same
    cases found
    have least := Nat.min_le_right task.lastCpu (c.cpus - 1)
    exact ⟨same.symm, Nat.lt_of_le_of_lt least (Nat.sub_one_lt_of_lt positive)⟩
  · exact recorded pid slot found

theorem Supplied.of_follows (supplied : c.Supplied) (h : c.Follows d) (policy : d.policy = c.policy) :
    d.Supplied where
  slices cpu pid slot here found runs := by
    rw [current?, h.current] at here
    rcases h.slot pid with same | ⟨_, _, _, queued⟩
    · exact supplied.slices cpu pid slot here (same ▸ found) runs
    · cases queued.symm.trans found
      cases runs
  enables p active := supplied.enables p (policy ▸ active)

theorem Supplied.modify (supplied : c.Supplied) {pid : Pid} {f : Slot → Slot}
    (some : ∀ cpu slot, c.current? cpu = some pid → c.tasks.get? pid = some slot →
      (f slot).state = .running cpu → (f slot).task.slice ≠ 0) :
    ({ c with tasks := c.tasks.modify pid f } : SchedClass ω).Supplied where
  slices cpu other slot here found runs := by
    simp only [Table.get?_modify] at found
    split at found
    · rename_i same
      rw [same] at here found
      obtain ⟨before, there, rfl⟩ := Option.map_eq_some_iff.mp found
      exact some cpu before here there runs
    · exact supplied.slices cpu other slot here found runs
  enables := supplied.enables

theorem mapTask_keeps {pid : Pid} {f : Task → Task}
    (valid : c.Recorded → ∀ slot, c.tasks.get? pid = some slot →
      (f slot.task).pid = pid ∧ (f slot.task).lastCpu < c.cpus)
    (supplies : c.Supplied → ∀ cpu slot, c.current? cpu = some pid → c.tasks.get? pid = some slot →
      slot.state = .running cpu → (f slot.task).slice ≠ 0) : c.Keeps (c.mapTask pid f) where
  policy := rfl
  exit := rfl
  cpus := rfl
  current := rfl
  states := c.state?_mapTask pid f
  recorded recorded := recorded.modify pid _ (valid recorded)
  supplied supplied := supplied.modify (supplies supplied)
  stocked stocked := ⟨stocked.vacant, stocked.conforms⟩
  covers _ present := present

/-! Callbacks of a policy that conforms. -/

theorem call_eq {cpu : CpuId} {body : Callback ω α} {placements : List Placement}
    (asks : (c.invoke cpu body).2.Asks placements) :
    c.call cpu body =
      (.ok ((c.invoke cpu body).1, placements), c.resume (c.invoke cpu body).2) := by
  simp only [call, asks.error, asks.placements]

theorem Places.keeps_of_states (h : c.Places d) (active : c.policy = some policy)
    (states : ∀ pid, d.state? pid = c.state? pid) (covers : c.queues.Covers d.queues) : c.Keeps d where
  policy := h.policy
  exit := h.exit
  cpus := h.cpus
  current := h.current
  states := states
  recorded recorded := recorded.of_follows h.toFollows
  supplied supplied := supplied.of_follows h.toFollows h.policy
  stocked stocked := stocked.of_covers h.policy (by rw [active]; rfl) covers
  covers := covers

section

variable (agrees : c.Agrees loose) (active : c.policy = some policy)

include agrees

theorem place_own {cpu : CpuId} {pid : Pid} {queue : QueueId} {r : Queues}
    (queued : c.state? pid = some .queued) (absent : pid ∉ c.queues.waiting)
    (pushed : c.queues.push queue cpu pid = .ok r) (active : c.policy = some policy) (slice : Nanos) :
    ∃ d, c.place cpu [] [⟨pid, queue, slice⟩] = (.ok [pid], d) ∧ c.Keeps d := by
  have registered := contains_of_state? queued
  have fresh : c.queues.contains pid = false := by
    rw [Queues.contains, ← Bool.not_eq_true, List.contains_iff_mem]
    exact absent
  have places := push_places agrees pushed registered absent slice
  refine ⟨_, by simp [place, placeOne, registered, fresh, pushed]; rfl, ?_⟩
  refine places.keeps_of_states active ?_ (Queues.push_sameNumbers pushed).covers
  intro other
  rw [state?, Table.get?_modify]
  split
  · rename_i same
    obtain ⟨slot, found, _⟩ := Option.map_eq_some_iff.mp queued
    rw [same, found, queued]
    rfl
  · rfl

theorem called_agrees (cpu : CpuId) (body : Callback ω α) :
    (c.resume (c.invoke cpu body).2).Agrees loose ∧
    ∀ pid, pid ∈ (c.invoke cpu body).2.queues.waiting ↔ pid ∈ c.queues.waiting := by
  have moved : c.queues.Shifts (c.invoke cpu body).2.queues [] [] :=
    Callback.run_shifts cpu c.clock body (p := ⟨c.queues, [], none, c.memory⟩) agrees.queues
  exact ⟨agrees.of_shifts moved _, fun pid => moved.waiting_perm.mem_iff⟩

variable (active : c.policy = some policy)

include active

theorem called_keeps (cpu : CpuId) (body : Callback ω α) :
    c.Keeps (c.resume (c.invoke cpu body).2) := by
  have covers : c.queues.Covers (c.invoke cpu body).2.queues :=
    Callback.run_covers cpu c.clock body ⟨c.queues, [], none, c.memory⟩
  have moved : c.queues.Shifts (c.invoke cpu body).2.queues [] [] :=
    Callback.run_shifts cpu c.clock body (p := ⟨c.queues, [], none, c.memory⟩) agrees.queues
  exact
    { policy := rfl
      exit := rfl
      cpus := moved.cpus
      current := rfl
      states := fun _ => rfl
      recorded := fun recorded pid slot found =>
        ⟨(recorded pid slot found).1, Nat.lt_of_lt_of_eq (recorded pid slot found).2 moved.cpus.symm⟩
      supplied := fun supplied => ⟨supplied.slices, supplied.enables⟩
      stocked := fun stocked => stocked.of_covers rfl (by rw [active]; rfl) covers
      covers }

theorem consult_keeps {cpu : CpuId} {body : Callback ω α} (asks : (c.invoke cpu body).2.Asks []) :
    c.Keeps (c.consult cpu body) := by
  simp only [consult, callAndPlace, call_eq asks, place]
  exact called_keeps agrees active cpu body

variable (conforms : policy.Conforms own) (stocks : c.queues.Stocks own)

include conforms stocks

theorem enqueueWith_keeps (recorded : c.Recorded) {pid : Pid} (queued : c.state? pid = some .queued)
    (absent : pid ∉ c.queues.waiting) (cpu : CpuId) (flags : UInt64) :
    c.Keeps (c.enqueueWith policy pid cpu flags) := by
  obtain ⟨slot, found, _⟩ := Option.map_eq_some_iff.mp queued
  have task : c.task? pid = some slot.task := by rw [task?, found]; rfl
  obtain ⟨queue, member, slice, asks⟩ :=
    conforms.enqueue cpu c.clock c.queues c.memory slot.task flags stocks
  rw [(recorded pid slot found).1] at asks
  have called := called_keeps agrees active cpu (policy.enqueue slot.task flags)
  obtain ⟨between, waits⟩ := called_agrees agrees cpu (policy.enqueue slot.task flags)
  obtain ⟨r, pushed⟩ :=
    Queues.push_ok (conforms.shared queue member) (called.stocks stocks queue member) cpu pid
  obtain ⟨d, placed, keeps⟩ := place_own between
    ((called.states pid).trans queued) (fun still => absent ((waits pid).mp still)) pushed active slice
  have asked : (c.invoke cpu (policy.enqueue slot.task flags)).2.Asks [⟨pid, queue, slice⟩] := asks
  unfold enqueueWith callAndPlace
  simp only [task, call_eq asked, placed]
  simpa using called.trans keeps

theorem chooseCpu_keeps {pid : Pid} {task : Task} (number : task.pid = pid)
    (known : task.lastCpu < c.cpus) (queued : c.state? pid = some .queued)
    (absent : pid ∉ c.queues.waiting) (flags : UInt64) :
    ∃ cpu placed d, c.chooseCpu policy task flags = (.ok (cpu, placed), d) ∧ cpu < c.cpus ∧
      c.Keeps d ∧ (placed = [pid] ∨ placed = [] ∧ pid ∉ d.queues.waiting) := by
  obtain ⟨chosen, slices, asks⟩ := conforms.selectCpu task.lastCpu c.clock c.queues c.memory task
    task.lastCpu flags stocks agrees.queues known
  have called := called_keeps agrees active task.lastCpu (policy.selectCpu task task.lastCpu flags)
  obtain ⟨between, waits⟩ :=
    called_agrees agrees task.lastCpu (policy.selectCpu task task.lastCpu flags)
  have valid : (c.invoke task.lastCpu (policy.selectCpu task task.lastCpu flags)).1 < c.cpus := chosen
  have outcome := call_eq (c := c) asks
  have queued := (called.states pid).trans queued
  have absent := fun there => absent ((waits pid).mp there)
  unfold chooseCpu
  rw [outcome]
  generalize c.invoke task.lastCpu (policy.selectCpu task task.lastCpu flags) = ran at *
  obtain ⟨cpu, p⟩ := ran
  have inside : cpu < (c.resume p).cpus := Nat.lt_of_lt_of_eq valid called.cpus.symm
  simp only [if_neg (Nat.not_le_of_lt inside)]
  cases slices with
  | none => exact ⟨cpu, [], c.resume p, rfl, valid, called, .inr ⟨rfl, absent⟩⟩
  | some slice =>
    have pushed : (c.resume p).queues.push localQueue cpu pid = .ok _ :=
      (if_pos rfl).trans (if_pos inside)
    obtain ⟨d, placed, keeps⟩ := place_own between queued absent pushed active slice
    simp only [Option.toList_some, List.map_cons, List.map_nil, number, placed]
    exact ⟨cpu, [pid], d, rfl, valid, called.trans keeps, .inl rfl⟩

end

/-! Callbacks of whatever policy is there. -/

section

variable (agrees : c.Agrees loose) (stocked : c.Stocked)

include agrees stocked

theorem refill_keeps {cpu : CpuId} (known : cpu < c.cpus) : c.Keeps (c.refill cpu) := by
  unfold refill
  cases active : c.policy with
  | none => exact .refl c
  | some policy =>
    obtain ⟨own, conforms, stocks⟩ := stocked.conforms policy active
    dsimp only
    split
    · exact .refl c
    · exact consult_keeps agrees active
        (conforms.dispatch cpu c.clock c.queues c.memory _ stocks known)

theorem start_keeps (cpu : CpuId) (task : Task) : c.Keeps (c.start cpu task) := by
  unfold start
  cases active : c.policy with
  | none => exact .refl c
  | some policy =>
    obtain ⟨own, conforms, stocks⟩ := stocked.conforms policy active
    exact consult_keeps agrees active (conforms.running cpu c.clock c.queues c.memory task stocks)

theorem halt_keeps (cpu : CpuId) (task : Task) (runnable : Bool) :
    c.Keeps (c.halt cpu task runnable) := by
  unfold halt
  cases active : c.policy with
  | none => exact .refl c
  | some policy =>
    obtain ⟨own, conforms, stocks⟩ := stocked.conforms policy active
    exact consult_keeps agrees active
      (conforms.stopping cpu c.clock c.queues c.memory task runnable stocks)

theorem enable_keeps (recorded : c.Recorded) (pid : Pid) : c.Keeps (c.enable pid) := by
  unfold enable enableWith
  cases active : c.policy with
  | none => exact .refl c
  | some policy =>
    obtain ⟨own, conforms, stocks⟩ := stocked.conforms policy active
    cases found : c.tasks.get? pid with
    | none => simpa [task?, found] using Keeps.refl c
    | some slot =>
      have task : c.task? pid = some slot.task := by rw [task?, found]; rfl
      obtain ⟨error, number, processor⟩ :=
        conforms.enable slot.task.lastCpu c.clock c.queues c.memory slot.task stocks
      have asks : (c.invoke slot.task.lastCpu (policy.enable slot.task)).2.Asks
          (c.invoke slot.task.lastCpu (policy.enable slot.task)).2.placements := ⟨error, rfl⟩
      have called := called_keeps agrees active slot.task.lastCpu (policy.enable slot.task)
      simp only [task, call_eq asks]
      refine called.trans (mapTask_keeps (fun _ slot' found' => ?_) fun supplied cpu slot' here found' runs => ?_)
      · cases Option.some.inj (found'.symm.trans found)
        obtain ⟨same, known⟩ := recorded pid slot found
        exact ⟨number.trans same,
          Nat.lt_of_lt_of_eq (Nat.lt_of_le_of_lt (Nat.le_of_eq processor) known) called.cpus.symm⟩
      · have same : slot' = slot := Option.some.inj (found'.symm.trans found)
        have kept := supplied.enables policy active slot.task.lastCpu c.clock ⟨c.queues, [], none, c.memory⟩ slot.task
        exact kept.symm ▸ same ▸ supplied.slices cpu pid slot' here found' runs

end

theorem enableAll_keeps (agrees : c.Agrees []) (stocked : c.Stocked) (recorded : c.Recorded)
    (pids : List Pid) : c.Keeps (pids.foldl enable c) := by
  induction pids generalizing c with
  | nil => exact .refl c
  | cons pid rest ih =>
    have first := enable_keeps agrees stocked recorded pid
    exact first.trans
      (ih (enable_serves agrees pid).2 (first.stocked stocked) (first.recorded recorded))

end SchedClass

end LoadableSched
