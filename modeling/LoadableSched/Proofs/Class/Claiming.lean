import LoadableSched.Proofs.Class.Turning

/-!
Over a whole run: a processor is claimed for one task at a time, so that nobody has to wait in line for a
processor that is busy. It is idle again as soon as it has nothing to run, unless the task that it was claimed
for was removed from its line.
-/

namespace LoadableSched.SchedClass

variable {ω : Type} {c : SchedClass ω} {cpu : CpuId} {op : Operation ω} {pid : Pid}

namespace Station

variable {s t : Station}

structure Sound (s : Station) : Prop where
  idle : s.idle = true → s.current = none ∧ s.line = []
  busy : s.current ≠ none → s.line = []
  short : s.line.length ≤ 1

/-- The processor is claimed for a task, which is in its line. -/
def promised (pid : Pid) : Station := ⟨none, [pid], false⟩

/-- The processor is claimed, and for nobody. -/
def withheld : Station := ⟨none, [], false⟩

theorem withheld_sound : withheld.Sound := ⟨nofun, fun _ => rfl, Nat.zero_le 1⟩

theorem Sound.of_mem (sound : s.Sound) (waits : pid ∈ s.line) : s = promised pid := by
  obtain ⟨current, line, idle⟩ := s
  have free : current = none := by
    by_contra busy
    rw [sound.busy busy] at waits
    cases waits
  have flag : idle = false := by
    by_contra set
    rw [(sound.idle (by simpa using set)).2] at waits
    cases waits
  obtain ⟨rest, rfl⟩ : ∃ rest, line = [rest] := by
    refine List.length_eq_one_iff.mp (Nat.le_antisymm sound.short ?_)
    exact List.length_pos_of_mem waits
  cases List.mem_singleton.mp waits
  rw [free, flag]
  rfl

end Station

namespace Turns

variable {s t : Station}

theorem sound (turns : Turns cpu op s t) (sound : s.Sound) : t.Sound := by
  cases turns with
  | stays => exact sound
  | claimed idle =>
    obtain ⟨free, nobody⟩ := sound.idle idle
    exact ⟨nofun, fun busy => absurd free busy, by simp [nobody]⟩
  | vacated busy =>
    have nobody := sound.busy busy
    exact ⟨fun _ => ⟨rfl, nobody⟩, fun _ => nobody, sound.short⟩
  | orphaned runs =>
    have nobody := sound.busy (by simp [runs])
    exact ⟨fun _ => ⟨rfl, nobody⟩, fun _ => nobody, sound.short⟩
  | withdrawn waits =>
    cases sound.of_mem waits
    have emptied : Station.withheld.Sound := Station.withheld_sound
    simpa [Station.promised, Station.withheld] using emptied
  | starts =>
    have alone : _ = [] := List.length_eq_zero_iff.mp (Nat.le_zero.mp (Nat.le_of_succ_le_succ sound.short))
    exact ⟨nofun, fun _ => alone, by simp [alone]⟩
  | fetches => exact ⟨nofun, fun _ => rfl, Nat.zero_le 1⟩
  | rests => exact ⟨fun _ => ⟨rfl, rfl⟩, fun _ => rfl, Nat.zero_le 1⟩

theorem promised_of_mem {flags : UInt64} (turns : Turns cpu (.wake pid flags : Operation ω) s t)
    (sound : s.Sound) (absent : pid ∉ s.line) (waits : pid ∈ t.line) :
    s.idle = true ∧ t = .promised pid := by
  cases turns with
  | stays => exact absurd waits absent
  | claimed idle =>
    obtain ⟨free, nobody⟩ := sound.idle idle
    exact ⟨idle, by rw [free, nobody]; rfl⟩

theorem claimed_stays (turns : Turns cpu op s t) (claimed : s.idle = false) (free : s.current = none)
    (picks : op ≠ .pickNext cpu) (removes : ∀ pid ∈ s.line, op ≠ .removeTask pid) : t = s := by
  cases turns with
  | stays => rfl
  | claimed idle =>
    rw [claimed] at idle
    cases idle
  | vacated busy => exact absurd free busy
  | orphaned runs =>
    rw [free] at runs
    cases runs
  | withdrawn waits => exact absurd rfl (removes _ waits)
  | starts | fetches | rests => exact absurd rfl picks

theorem starts_promised (turns : Turns cpu (.pickNext cpu : Operation ω) (.promised pid) t) :
    t = ⟨some pid, [], false⟩ := by
  generalize here : Station.promised pid = s at turns
  cases turns with
  | stays picks =>
    cases here
    exact absurd rfl (picks rfl)
  | starts =>
    cases here
    rfl
  | fetches | rests => cases here

theorem withheld_of_mem (turns : Turns cpu (.removeTask pid : Operation ω) s t) (sound : s.Sound)
    (waits : pid ∈ s.line) : t = .withheld := by
  have promised := sound.of_mem waits
  cases turns with
  | stays _ removes => exact absurd waits (removes pid rfl).2
  | orphaned runs =>
    rw [promised] at runs
    cases runs
  | withdrawn =>
    rw [promised]
    simp [Station.promised, Station.withheld]

theorem withheld_inv (turns : Turns cpu op s t) (left : t = .withheld) :
    s = .withheld ∧ op ≠ .pickNext cpu ∨ ∃ pid, op = .removeTask pid ∧ pid ∈ s.line := by
  cases turns with
  | stays picks =>
    refine .inl ⟨left, fun same => picks same ?_⟩
    rw [left]
    rfl
  | withdrawn waits => exact .inr ⟨_, rfl, waits⟩
  | claimed | vacated | orphaned | starts | fetches | rests => simp [Station.withheld] at left

end Turns

/-! Runs in which only policies are installed that give tasks to idle processors alone. -/

def Operation.Directs : Operation ω → Prop
  | .install policy => ∃ order, policy.Directs order
  | _ => True

theorem Operation.Directs.conforms (directs : op.Directs) : op.Conforms := by
  cases op with
  | install policy =>
    obtain ⟨order, given⟩ := directs
    exact ⟨order, given.drains.conforms⟩
  | _ => trivial

theorem Operation.Ships.directs {op : Operation Memory} (ships : op.Ships) : op.Directs := by
  cases op with
  | install policy => exact Policy.IsShipped.directs ships
  | _ => trivial

theorem Steady.station_beyond (steady : c.Steady) (unknown : c.cpus ≤ cpu) :
    c.station cpu = .withheld := by
  have free := steady.backed.free_beyond unknown
  have nobody : c.queues.locals[cpu]? = none := List.getElem?_eq_none unknown
  have flag : c.queues.idle[cpu]? = none := by
    apply List.getElem?_eq_none
    rw [steady.agrees.queues.flags]
    exact unknown
  simp only [station, free, Queues.ownLine, nobody, Queues.isIdle, flag]
  rfl

theorem new_station (cpus : Nat) (memory : ω) (known : cpu < (new cpus memory).cpus) :
    (new cpus memory).station cpu = ⟨none, [], true⟩ := by
  have inside : cpu < max 1 (min cpus maxCpus) := by
    simpa [SchedClass.cpus, new, Queues.new, Queues.cpus] using known
  simp [station, current?, Queues.ownLine, Queues.isIdle, new, Queues.new, inside]

structure Direct (c : SchedClass ω) : Prop where
  steady : c.Steady
  housed : c.Housed
  directs : ∀ policy, c.policy = some policy → ∃ order, policy.Directs order
  sound : ∀ cpu, (c.station cpu).Sound

namespace Direct

theorem new (cpus : Nat) (memory : ω) : (new cpus memory).Direct where
  steady := .new cpus memory
  housed := nofun
  directs := nofun
  sound cpu := by
    by_cases known : cpu < (SchedClass.new cpus memory).cpus
    · rw [new_station cpus memory known]
      exact ⟨fun _ => ⟨rfl, rfl⟩, fun _ => rfl, Nat.zero_le 1⟩
    · rw [(Steady.new cpus memory).station_beyond (Nat.le_of_not_lt known)]
      exact Station.withheld_sound

section

variable (direct : c.Direct)

include direct

theorem served : ∃ order, c.Served order ∧ ∀ policy, c.policy = some policy → policy.Directs order := by
  cases active : c.policy with
  | none => exact ⟨[], .of_vacant direct.steady.healthy.stocked.vacant active, nofun⟩
  | some policy =>
    obtain ⟨order, given⟩ := direct.directs policy active
    refine ⟨order, .of_housed direct.housed active given.drains, fun other there => ?_⟩
    cases there
    exact given

theorem turned (known : cpu < c.cpus) (directs : op.Directs) : c.Turned op cpu := by
  obtain ⟨order, served, given⟩ := direct.served
  refine step_turns direct.steady served given known fun policy same => ?_
  subst same
  exact directs

theorem step_cpus (op : Operation ω) : (c.step op).cpus = c.cpus :=
  (step_carries direct.steady.agrees direct.steady.backed op).cpus

theorem step_directs (directs : op.Directs) (policy : Policy ω) (active : (c.step op).policy = some policy) :
    ∃ order, policy.Directs order := by
  have spared : op.SparesPolicy → ∃ order, policy.Directs order := by
    intro spares
    have same := (step_spares direct.steady.agrees direct.steady.backed direct.steady.healthy spares).policy
    exact direct.directs policy (same.symm.trans active)
  cases op with
  | install given =>
    cases before : c.policy with
    | some current =>
      have same : c.step (.install given) = c := congrArg Prod.snd (install_busy before)
      exact direct.directs policy (by rw [← active, same])
    | none =>
      obtain ⟨order, conforms⟩ := directs.conforms
      obtain ⟨_, _, there⟩ := install_stands direct.steady.agrees direct.steady.healthy before conforms
      cases Option.some.inj (there.symm.trans active)
      exact directs
  | uninstall =>
    rw [step, (uninstall_stands direct.steady.agrees direct.steady.healthy).2] at active
    cases active
  | addTask | removeTask | wake | enqueue | pickNext | stop | advanceClock | setMemory =>
    exact spared trivial

theorem step (directs : op.Directs) : (c.step op).Direct where
  steady := direct.steady.step op directs.conforms
  housed := step_housed direct.steady.healthy.stocked.vacant direct.housed op
  directs := direct.step_directs directs
  sound cpu := by
    by_cases known : cpu < c.cpus
    · exact (direct.turned known directs).sound (direct.sound cpu)
    · have unknown : (c.step op).cpus ≤ cpu :=
        Nat.le_trans (Nat.le_of_eq (direct.step_cpus op)) (Nat.le_of_not_lt known)
      rw [(direct.steady.step op directs.conforms).station_beyond unknown]
      exact Station.withheld_sound

end

theorem steps (direct : c.Direct) {ops : List (Operation ω)} (directs : ∀ op ∈ ops, op.Directs) :
    (c.steps ops).Direct ∧ (c.steps ops).cpus = c.cpus := by
  induction ops generalizing c with
  | nil => exact ⟨direct, rfl⟩
  | cons op rest ih =>
    obtain ⟨after, cpus⟩ := ih (direct.step (directs op List.mem_cons_self)) fun later member =>
      directs later (List.mem_cons_of_mem _ member)
    exact ⟨after, cpus.trans (direct.step_cpus op)⟩

theorem steps_claimed (direct : c.Direct) (known : cpu < c.cpus) {ops : List (Operation ω)}
    (directs : ∀ op ∈ ops, op.Directs) (claimed : (c.station cpu).idle = false)
    (free : (c.station cpu).current = none) (picks : .pickNext cpu ∉ ops)
    (removes : ∀ pid ∈ (c.station cpu).line, .removeTask pid ∉ ops) :
    (c.steps ops).station cpu = c.station cpu := by
  induction ops generalizing c with
  | nil => rfl
  | cons op rest ih =>
    have first := directs op List.mem_cons_self
    have stays := (direct.turned known first).claimed_stays claimed free
      (fun same => picks (same ▸ List.mem_cons_self))
      fun pid member same => removes pid member (same ▸ List.mem_cons_self)
    have later := ih (direct.step first) (direct.step_cpus op ▸ known)
      (fun later member => directs later (List.mem_cons_of_mem _ member)) (by rw [stays, claimed])
      (by rw [stays, free]) (fun member => picks (List.mem_cons_of_mem _ member))
      fun pid member there => removes pid (stays ▸ member) (List.mem_cons_of_mem _ there)
    exact later.trans stays

/-- A processor is claimed for nobody exactly if a task was removed from its line and it has not picked
since. -/
theorem withheld_iff (direct : c.Direct) (known : cpu < c.cpus) (given : c.station cpu ≠ .withheld)
    {ops : List (Operation ω)} (directs : ∀ op ∈ ops, op.Directs) :
    (c.steps ops).station cpu = .withheld ↔ ∃ early pid later,
      ops = early ++ .removeTask pid :: later ∧ pid ∈ (c.steps early).queues.ownLine cpu ∧
        .pickNext cpu ∉ later := by
  constructor
  · intro held
    induction ops using List.reverseRecOn with
    | nil => exact absurd held given
    | append_singleton ops op ih =>
      obtain ⟨first, last⟩ := List.forall_mem_append.mp directs
      obtain ⟨between, cpus⟩ := direct.steps first
      rw [steps_append] at held
      have turned := between.turned (cpus.symm ▸ known) (last op List.mem_cons_self)
      rcases turned.withheld_inv held with ⟨before, picks⟩ | ⟨pid, rfl, waits⟩
      · obtain ⟨early, pid, later, split, waits, none⟩ := ih first before
        refine ⟨early, pid, later ++ [op], by simp [split], waits, fun member => ?_⟩
        rcases List.mem_append.mp member with there | there
        · exact none there
        · exact picks (List.mem_singleton.mp there).symm
      · exact ⟨ops, pid, [], rfl, waits, List.not_mem_nil⟩
  · rintro ⟨early, pid, later, rfl, waits, picks⟩
    obtain ⟨first, rest⟩ := List.forall_mem_append.mp directs
    obtain ⟨between, cpus⟩ := direct.steps first
    have known : cpu < (c.steps early).cpus := cpus.symm ▸ known
    have removal := rest (.removeTask pid) List.mem_cons_self
    have left := (between.turned known removal).withheld_of_mem (between.sound cpu) waits
    have stays := (between.step removal).steps_claimed (between.step_cpus _ ▸ known)
      (fun op member => rest op (List.mem_cons_of_mem _ member)) (by rw [left]; rfl) (by rw [left]; rfl)
      picks (by rw [left]; nofun)
    rw [steps_append, SchedClass.steps, stays, left]

end Direct

theorem localLength_eq_zero_iff : c.localLength cpu = 0 ↔ c.queues.ownLine cpu = [] := by
  rw [localLength_eq, List.length_eq_zero_iff]

theorem Direct.starts_promised (direct : c.Direct) (known : cpu < c.cpus)
    (here : c.station cpu = .promised pid) {later : List (Operation ω)}
    (directs : ∀ op ∈ later, op.Directs) (picks : .pickNext cpu ∉ later)
    (removes : .removeTask pid ∉ later) : ((c.steps later).pickNext cpu).1 = .ok (some pid) := by
  have stays := direct.steps_claimed known directs (by rw [here]; rfl) (by rw [here]; rfl) picks
    fun other member => by
      rw [here] at member
      cases List.mem_singleton.mp member
      exact removes
  obtain ⟨last, cpus⟩ := direct.steps directs
  have known : cpu < (c.steps later).cpus := cpus.symm ▸ known
  have turned : (c.steps later).Turned (.pickNext cpu) cpu := last.turned known trivial
  rw [Turned, stays, here] at turned
  obtain ⟨_, _, next, found, runs, _⟩ := last.steady.picks known
  have started : next = some pid := by
    have after := congrArg Station.current turned.starts_promised
    exact ((runs cpu).trans (if_pos rfl)).symm.trans after
  rw [found, started]

/-- Under the policies that come with the host and without one, no processor has more tasks than it can run:
an idle one has none, one that runs a task has nobody in its line, and no line is longer than one. So a task
that wakes goes to the line of a processor only if that was idle, and is the next that it runs, whatever
happens until then, unless the task is removed. -/
theorem direct_dispatch_never_overcommits (cpus : Nat) (memory : Memory) (ops : List (Operation Memory))
    (ships : ∀ op ∈ ops, op.Ships) (cpu : CpuId) :
    let c := (new cpus memory).steps ops
    (c.queues.isIdle cpu = true → c.current? cpu = none ∧ c.localLength cpu = 0) ∧
    (c.current? cpu ≠ none → c.localLength cpu = 0) ∧
    c.localLength cpu ≤ 1 ∧
    ∀ pid flags, pid ∉ c.queues.ownLine cpu → pid ∈ (c.wake pid flags).2.queues.ownLine cpu →
      c.queues.isIdle cpu = true ∧ ∀ later : List (Operation Memory), (∀ op ∈ later, op.Ships) →
        .pickNext cpu ∉ later → .removeTask pid ∉ later →
          (((c.wake pid flags).2.steps later).pickNext cpu).1 = .ok (some pid) := by
  obtain ⟨direct, _⟩ := (Direct.new cpus memory).steps fun op member => (ships op member).directs
  generalize (new cpus memory).steps ops = c at direct ⊢
  have sound := direct.sound cpu
  refine ⟨fun idle => ?_, fun busy => localLength_eq_zero_iff.mpr (sound.busy busy), ?_, ?_⟩
  · obtain ⟨free, nobody⟩ := sound.idle idle
    exact ⟨free, localLength_eq_zero_iff.mpr nobody⟩
  · rw [localLength_eq]
    exact sound.short
  · intro pid flags absent waits
    have woken : (Operation.wake pid flags : Operation Memory).Directs := trivial
    have known : cpu < c.cpus := by
      by_contra beyond
      have unknown := Nat.le_trans (Nat.le_of_eq (direct.step_cpus (.wake pid flags)))
        (Nat.le_of_not_lt beyond)
      have nobody : (c.wake pid flags).2.queues.ownLine cpu = [] :=
        congrArg Station.line ((direct.step woken).steady.station_beyond unknown)
      rw [nobody] at waits
      cases waits
    obtain ⟨idle, promised⟩ := (direct.turned known woken).promised_of_mem sound absent waits
    refine ⟨idle, fun later ships picks removes => ?_⟩
    exact (direct.step woken).starts_promised (direct.step_cpus (.wake pid flags) ▸ known) promised
      (fun op member => (ships op member).directs) picks removes

def pairRun : List (Operation Memory) := [.install (Fifo.policy Memory), .addTask { pid := 1 },
  .addTask { pid := 2 }, .wake 1 0, .pickNext 0]

theorem second_task_goes_to_idle_processor :
    let c := (new 2 Memory.empty).steps pairRun
    (∀ op ∈ pairRun, op.Ships) ∧ c.queues.isIdle 0 = false ∧ c.queues.isIdle 1 = true ∧
      (c.wake 2 0).2.queues.ownLine 1 = [2] ∧
      (((c.wake 2 0).2.steps [.uninstall, .stop 0 5 true, .install (Fifo.policy Memory)]).pickNext 1).1 =
        .ok (some 2) := by
  have ships : ∀ op ∈ pairRun, op.Ships := by
    intro op member
    simp only [pairRun, List.mem_cons, List.not_mem_nil, or_false] at member
    rcases member with rfl | rfl | rfl | rfl | rfl
    · exact Policy.IsShipped.fifo
    all_goals trivial
  obtain ⟨_, _, _, direct⟩ := direct_dispatch_never_overcommits 2 Memory.empty pairRun ships 1
  obtain ⟨idle, next⟩ := direct 2 0 (by decide) (by decide)
  refine ⟨ships, by decide, idle, by decide, next _ ?_ (by simp) (by simp)⟩
  intro op member
  simp only [List.mem_cons, List.not_mem_nil, or_false] at member
  rcases member with rfl | rfl | rfl
  · trivial
  · trivial
  · exact Policy.IsShipped.fifo

/-! A claimed processor is given back. -/

theorem Direct.wakes_directly (direct : c.Direct) (active : c.policy ≠ none)
    (idle : c.queues.isIdle cpu = true) {slot : Slot} (found : c.tasks.get? pid = some slot)
    (asleep : slot.state = .sleeping) (flags : UInt64) :
    ∃ chosen, c.queues.isIdle chosen = true ∧ (c.wake pid flags).2.queues.ownLine chosen = [pid] ∧
      (slot.task.lastCpu = cpu → chosen = cpu) := by
  obtain ⟨order, served, given⟩ := direct.served
  obtain ⟨_, known⟩ := direct.steady.healthy.recorded pid slot found
  rcases c.queues.selectCpu_cases slot.task.lastCpu with ⟨chosen, claimed, free, own⟩ | ⟨_, none⟩
  · have after := wake_stations direct.steady served given found asleep active flags chosen
    have nobody : c.queues.ownLine chosen = [] := ((direct.sound chosen).idle free).2
    rw [claimed, if_pos rfl, nobody] at after
    refine ⟨chosen, free, congrArg Station.line after, fun same => ?_⟩
    exact same ▸ own known (same.symm ▸ idle)
  · rw [none cpu] at idle
    cases idle

/-- Under the policies that come with the host and without one, a processor that has nothing to run and
nobody in its line counts as idle, except from the removal of a task out of its line until it picks again; and
a task that wakes under a policy while a processor is idle goes to the line of one, its last one if it can. -/
theorem processor_withheld_iff (cpus : Nat) (memory : Memory) (ops : List (Operation Memory))
    (ships : ∀ op ∈ ops, op.Ships) (cpu : CpuId) (known : cpu < (new cpus memory).cpus) :
    let c := (new cpus memory).steps ops
    (c.current? cpu = none ∧ c.localLength cpu = 0 ∧ c.queues.isIdle cpu = false ↔
      ∃ early pid later, ops = early ++ .removeTask pid :: later ∧
        pid ∈ ((new cpus memory).steps early).queues.ownLine cpu ∧ .pickNext cpu ∉ later) ∧
    (c.queues.isIdle cpu = true → c.policy ≠ none → ∀ pid slot flags, c.tasks.get? pid = some slot →
      slot.state = .sleeping → ∃ chosen, c.queues.isIdle chosen = true ∧
        (c.wake pid flags).2.queues.ownLine chosen = [pid] ∧
          (slot.task.lastCpu = cpu → chosen = cpu)) := by
  have directs : ∀ op ∈ ops, op.Directs := fun op member => (ships op member).directs
  have start := Direct.new cpus memory
  have given : (new cpus memory).station cpu ≠ .withheld := by
    rw [new_station cpus memory known]
    nofun
  obtain ⟨direct, _⟩ := start.steps directs
  constructor
  · rw [localLength_eq_zero_iff, ← start.withheld_iff known given directs]
    simp [station, Station.withheld]
  · exact fun idle active pid slot flags found asleep =>
      direct.wakes_directly active idle found asleep flags

def strandedRun : List (Operation Memory) := [.install (Fifo.policy Memory), .addTask { pid := 1 },
  .wake 1 0, .removeTask 1, .addTask { pid := 2 }]

theorem stranded_ships : ∀ op ∈ strandedRun, op.Ships := by
  intro op member
  simp only [strandedRun, List.mem_cons, List.not_mem_nil, or_false] at member
  rcases member with rfl | rfl | rfl | rfl | rfl
  · exact Policy.IsShipped.fifo
  all_goals trivial

theorem removal_withholds_processor :
    let c := (new 1 Memory.empty).steps strandedRun
    c.current? 0 = none ∧ c.localLength 0 = 0 ∧ c.queues.isIdle 0 = false := by
  refine (processor_withheld_iff 1 Memory.empty strandedRun stranded_ships 0 (by decide)).1.mpr ?_
  exact ⟨[.install (Fifo.policy Memory), .addTask { pid := 1 }, .wake 1 0], 1, [.addTask { pid := 2 }], rfl,
    by decide, by simp⟩

/-- The processor has nothing to run and nobody in its line, and still the next task that wakes has to go
to the queue that all processors share. -/
theorem removal_from_line_leaves_busy :
    ¬ ∀ (cpus : Nat) (memory : Memory) (ops : List (Operation Memory)) (cpu : CpuId),
      (∀ op ∈ ops, op.Ships) → cpu < (new cpus memory).cpus →
      ((new cpus memory).steps ops).current? cpu = none →
      ((new cpus memory).steps ops).localLength cpu = 0 →
      ((new cpus memory).steps ops).queues.isIdle cpu = true := by
  intro all
  have idle := all 1 Memory.empty strandedRun 0 stranded_ships (by decide) rfl rfl
  have busy : ((new 1 Memory.empty).steps strandedRun).queues.isIdle 0 = false := rfl
  rw [busy] at idle
  cases idle

end LoadableSched.SchedClass
