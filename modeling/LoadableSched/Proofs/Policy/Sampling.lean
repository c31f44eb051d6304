import LoadableSched.Proofs.Class.Opening

/-!
How much of its slices a task is recorded to use under priority for I/O: what slice a task that stops had been
granted, and what sample is taken of it.
-/

namespace LoadableSched

/-- What is counted as used of a slice agrees with the time that a task ran, up to the slice that it was
granted, just if that is the slice it is counted from. Only for a task that never ran it may be shorter. -/
theorem sample_eq_ran_iff (slice granted ran : Nanos) :
    (subSat slice (subSat granted ran)).toNat = min ran.toNat granted.toNat ↔
      granted = slice ∨ ran = 0 ∧ slice ≤ granted := by
  rw [subSat_toNat, subSat_toNat, ← UInt64.toNat_inj, ← UInt64.toNat_inj, UInt64.le_iff_toNat_le,
    UInt64.toNat_zero]
  omega

namespace SchedClass

section

variable {ω : Type} {c d : SchedClass ω} {policy : Policy ω} {b : Bookkeeping ω}

def placements (c : SchedClass ω) : List (Operation ω) → List Placement
  | [] => []
  | op :: rest => (c.inquiries op).flatMap (·.dispatches) ++ (c.step op).placements rest

def lastGrant (made : List Placement) (pid : Pid) : Option Placement :=
  (made.filter (·.pid = pid)).getLast?

theorem lastGrant_append (made more : List Placement) (pid : Pid) :
    lastGrant (made ++ more) pid = (lastGrant more pid).or (lastGrant made pid) := by
  rw [lastGrant, List.filter_append, List.getLast?_append]
  rfl

theorem lastGrant_one (made : List Placement) (p : Placement) (pid : Pid) :
    lastGrant (made ++ [p]) pid = if p.pid = pid then some p else lastGrant made pid := by
  rw [lastGrant_append]
  by_cases here : p.pid = pid
  · simp [lastGrant, here]
  · simp [lastGrant, here]

theorem mem_of_lastGrant {made : List Placement} {pid : Pid} {p : Placement}
    (last : lastGrant made pid = some p) : p ∈ made ∧ p.pid = pid := by
  simpa using List.mem_filter.mp (List.mem_of_getLast? last)

/-- Each of these placements was made for a good reason, and a task that waits or runs has the slice of the
last one. -/
structure Granted (b : Bookkeeping ω) (c : SchedClass ω) (made : List Placement) : Prop where
  ready : ∀ p ∈ made, ∃ now m m', b.ready p now m m'
  slices : ∀ pid slot, c.tasks.get? pid = some slot →
    slot.state = .sleeping ∨ ∃ p, lastGrant made pid = some p ∧ slot.task.slice = p.slice

namespace Granted

variable {made more : List Placement}

theorem calm (granted : Granted b c made) {newcomer busy : Option Pid} (calm : c.Calm newcomer busy d)
    {pid : Pid} {slot : Slot} (other : busy ≠ some pid) (found : d.tasks.get? pid = some slot) :
    slot.state = .sleeping ∨ ∃ p, lastGrant made pid = some p ∧ slot.task.slice = p.slice := by
  rcases calm.others pid slot other found with asleep | same
  · exact .inl asleep
  · exact granted.slices pid slot same

theorem place (granted : Granted b c made) {newcomer : Option Pid} {p : Placement}
    (calm : c.Calm newcomer (some p.pid) d) (holds : d.Holds p) {now : Nanos} {m m' : ω}
    (ready : b.ready p now m m') : Granted b d (made ++ [p]) where
  ready q member := by
    rcases List.mem_append.mp member with old | new
    · exact granted.ready q old
    · cases List.mem_singleton.mp new
      exact ⟨now, m, m', ready⟩
  slices pid slot found := by
    rw [lastGrant_one]
    by_cases here : p.pid = pid
    · obtain ⟨held, there, _, slice⟩ := holds
      rw [here, found] at there
      cases there
      exact .inr ⟨p, if_pos here, slice⟩
    · rw [if_neg here]
      exact granted.calm calm (fun same => here (Option.some.inj same)) found

theorem episode (positive : ∀ p now m m', b.ready p now m m' → p.slice ≠ 0) (granted : Granted b c made)
    {newcomer started : Option Pid} (episode : Episode b c newcomer more started d) :
    Granted b d (made ++ more) := by
  cases episode with
  | still calm =>
    rw [List.append_nil]
    exact ⟨granted.ready, fun pid slot => granted.calm calm nofun⟩
  | readies slept calm holds ready => exact granted.place calm holds ready
  | @starts _ pid slot cpu found waited calm runs =>
    rw [List.append_nil]
    refine ⟨granted.ready, fun other slot' found' => ?_⟩
    by_cases here : other = pid
    · obtain ⟨p, last, slice⟩ := (granted.slices pid slot found).resolve_left (by rw [waited]; nofun)
      obtain ⟨now, m, m', ready⟩ := granted.ready p (mem_of_lastGrant last).1
      subst here
      cases runs.symm.trans found'
      -- A slice that was granted is not used up, so it is not renewed.
      refine .inr ⟨p, last, ?_⟩
      rw [Task.startOn, if_neg (slice ▸ positive p now m m' ready), slice]
    · exact granted.calm calm (fun same => here (Option.some.inj same).symm) found'
  | rests calm =>
    rw [List.append_nil]
    exact ⟨granted.ready, fun pid slot => granted.calm calm nofun⟩
  | returns ran calm holds halt ready => exact granted.place calm holds ready

end Granted

theorem Granted.run (positive : ∀ p now m m', b.ready p now m m' → p.slice ≠ 0)
    (records : policy.Records b) (steady : c.Steady) (active : c.policy = some policy)
    {made : List Placement} (granted : Granted b c made) {ops : List (Operation ω)}
    (stays : ∀ op ∈ ops, op ≠ .uninstall) :
    (c.steps ops).Steady ∧ (c.steps ops).policy = some policy ∧
      Granted b (c.steps ops) (made ++ c.placements ops) := by
  induction ops generalizing c made with
  | nil => exact ⟨steady, active, by rwa [placements, List.append_nil]⟩
  | cons op rest ih =>
    have kept := stays op List.mem_cons_self
    obtain ⟨next, there⟩ := steady.kept active kept
    have after : Granted b (c.step op) (made ++ (c.inquiries op).flatMap (·.dispatches)) := by
      by_cases drives : op.Drives
      · exact granted.episode positive (step_episode records active steady drives)
      · cases op with
        | uninstall => exact absurd rfl kept
        | advanceClock delta | setMemory memory =>
          simpa only [inquiries, List.flatMap_nil, List.append_nil] using ⟨granted.ready, granted.slices⟩
        | _ => exact absurd trivial drives
    obtain ⟨last, still, final⟩ := ih next there after fun op member => stays op (List.mem_cons_of_mem _ member)
    rw [List.append_assoc] at final
    exact ⟨last, still, final⟩

theorem stop_tells (steady : c.Steady) (active : c.policy = some policy) {cpu : CpuId} {pid : Pid}
    (here : c.current? cpu = some pid) (ran : Nanos) (runnable : Bool) :
    ∃ slot i, c.tasks.get? pid = some slot ∧ slot.state = .running cpu ∧ slot.task.pid = pid ∧
      (c.inquiries (.stop cpu ran runnable)).head? = some i ∧
      i.matter = .stopping cpu (slot.task.charge ran) runnable ∧ i.before.memory = c.memory := by
  have known : ¬ c.cpus ≤ cpu := Nat.not_le_of_lt (steady.backed.known here)
  obtain ⟨slot, found, state⟩ := Option.map_eq_some_iff.mp (steady.healthy.held cpu pid here)
  have there : (c.vacate cpu pid).tasks.get? pid = some slot := found
  have entered : ((c.vacate cpu pid).mapTask pid fun _ => slot.task.charge ran).policy = some policy := active
  refine ⟨slot, ⟨(c.vacate cpu pid).mapTask pid fun _ => slot.task.charge ran, policy,
    .stopping cpu (slot.task.charge ran) runnable⟩, found, state,
    (steady.healthy.recorded pid slot found).1, ?_, rfl, rfl⟩
  simp only [inquiries, stopInquiries, if_neg known, here, there]
  generalize (c.vacate cpu pid).mapTask pid (fun _ => slot.task.charge ran) = d at *
  simp only [haltInquiries, entered]
  rfl

end

theorem IoPriority.ready_cases {p : IoPriority} {placed : Placement} {now : Nanos} {m m' : Memory}
    (ready : p.bookkeeping.ready placed now m m') :
    placed = ⟨placed.pid, localQueue, p.slice⟩ ∨ placed = ⟨placed.pid, IoPriority.normalQueue, p.slice⟩ ∨
      placed = ⟨placed.pid, IoPriority.prioQueue, p.prioSlice⟩ := by
  rcases ready with ⟨direct, _⟩ | ⟨lane, _⟩
  · exact .inl direct
  · rw [lane, p.lane_pid]
    unfold IoPriority.lane
    split
    · exact .inr (.inr rfl)
    · exact .inr (.inl rfl)

/-- Under priority for I/O with valid settings, installed before the first task, a task that is taken off a
processor had been granted the normal slice by way of a processor's own queue or of the normal queue, or the
other slice by way of the queue that is served first. What is recorded of it is what is left of the grant, taken
from the normal slice. That is the time it ran, up to the grant, if the grant was the normal slice, and else
only for a task that never ran and was granted more. -/
theorem usage_is_taken_from_normal_slice (cpus : Nat) (memory : Memory)
    (before after : List (Operation Memory)) (early : ∀ op ∈ before, ∀ task, op ≠ .addTask task)
    {t : Tunables} (valid : t.validate = .ok ()) (model : UsageModel) (maps : TaskMaps) (counters : Nat)
    (installed : (((new cpus memory).steps before).install
      (IoPriority.ofTunables t model maps counters).policy).1 = .ok ())
    (stays : ∀ op ∈ after, op ≠ .uninstall) (cpu : CpuId) (pid : Pid) (ran : Nanos) (runnable : Bool) :
    let p := IoPriority.ofTunables t model maps counters
    let start := (new cpus memory).steps (before ++ [.install p.policy])
    let c := start.steps after
    c.current? cpu = some pid → ∃ grant task i, lastGrant (start.placements after) pid = some grant ∧
      (grant = ⟨pid, localQueue, t.slice⟩ ∨ grant = ⟨pid, IoPriority.normalQueue, t.slice⟩ ∨
        grant = ⟨pid, IoPriority.prioQueue, t.prioSlice⟩) ∧
      (c.inquiries (.stop cpu ran runnable)).head? = some i ∧ i.matter = .stopping cpu task runnable ∧
      i.before.memory = c.memory ∧
      let sample := subSat t.slice (subSat grant.slice ran)
      i.after.memory = p.noted pid sample c.memory ∧
        (sample.toNat = min ran.toNat grant.slice.toNat ↔
          grant.slice = t.slice ∨ ran = 0 ∧ t.slice ≤ grant.slice) := by
  intro p start c here
  obtain ⟨positive, prioPositive, _⟩ := Tunables.sound_of_valid valid
  have opened : start.Opened p.policy ((new cpus memory).steps before).memory :=
    opened cpus memory early p.conforms p.records installed
  have grantsSome : ∀ placed now m m', p.bookkeeping.ready placed now m m' → placed.slice ≠ 0 := by
    intro placed now m m' ready
    rcases IoPriority.ready_cases ready with same | same | same <;> rw [same]
    · exact positive
    · exact positive
    · exact prioPositive
  have nothing : Granted p.bookkeeping start [] :=
    ⟨nofun, fun pid slot found => absurd ((opened.empty pid).symm.trans found) nofun⟩
  obtain ⟨steady, active, granted⟩ := nothing.run grantsSome p.records opened.steady opened.active stays
  rw [List.nil_append] at granted
  obtain ⟨slot, i, found, state, number, first, matter, memory⟩ := stop_tells steady active here ran runnable
  obtain ⟨grant, last, slice⟩ := (granted.slices pid slot found).resolve_left (by rw [state]; nofun)
  obtain ⟨member, owner⟩ := mem_of_lastGrant last
  obtain ⟨now, m, m', ready⟩ := granted.ready grant member
  refine ⟨grant, _, i, last, ?_, first, matter, memory, ?_, sample_eq_ran_iff _ _ _⟩
  · exact owner ▸ IoPriority.ready_cases ready
  · obtain ⟨same, there, fine⟩ := steady.fine active (List.mem_of_mem_head? first)
    obtain ⟨grants, allows⟩ := Inquiry.allowed p.records same (by rw [matter]; nofun)
      (by rintro ⟨_, _, enables⟩; rw [matter] at enables; cases enables) fine
    rw [matter, memory] at allows
    generalize i.dispatches = made at allows
    cases allows with
    | halts halt =>
      rw [← slice]
      exact halt.trans (congrArg (p.noted · _ _) number)

def shortTurn : List (Operation Memory) :=
  [.addTask { pid := 1 }, .enqueue 1 0, .pickNext 0, .stop 0 100000 true, .pickNext 0]

/-- Of a slice of five milliseconds it runs for one, and sixteen are recorded. -/
theorem short_slice_is_overcharged :
    let p := IoPriority.ofTunables briskSettings .lastSample ⟨0, 1⟩ 0
    let start := (new 1 Memory.empty.newTaskMaps.2.newCounters.2).steps [.install p.policy]
    let c := start.steps shortTurn
    let d := c.step (.stop 0 1000000 false)
    briskSettings.validate = .ok () ∧ c.current? 0 = some 1 ∧
      lastGrant (start.placements shortTurn) 1 = some ⟨1, IoPriority.prioQueue, 5000000⟩ ∧
      (d.memory.read 1 1).1 = some 16000000 ∧
      (d.memory.countersAt 0).sliceUsed - (c.memory.countersAt 0).sliceUsed = 16000000 :=
  ⟨rfl, by decide +kernel, by decide +kernel, by decide +kernel, by decide +kernel⟩

theorem short_slice_is_taken_from_normal :
    let p := IoPriority.ofTunables briskSettings .lastSample ⟨0, 1⟩ 0
    let start := (new 1 Memory.empty.newTaskMaps.2.newCounters.2).steps ([] ++ [.install p.policy])
    let c := start.steps shortTurn
    ∃ task i, (c.inquiries (.stop 0 1000000 false)).head? = some i ∧ i.matter = .stopping 0 task false ∧
      i.after.memory = p.noted 1 16000000 c.memory := by
  intro p start c
  have granted : lastGrant (start.placements shortTurn) 1 = some ⟨1, IoPriority.prioQueue, 5000000⟩ := by
    decide +kernel
  obtain ⟨grant, task, i, last, _, first, matter, _, noted, _⟩ := usage_is_taken_from_normal_slice 1
    Memory.empty.newTaskMaps.2.newCounters.2 [] shortTurn nofun (t := briskSettings) rfl .lastSample ⟨0, 1⟩ 0
    rfl (by simp [shortTurn]) 0 1 1000000 false (by decide +kernel)
  cases granted.symm.trans last
  exact ⟨task, i, first, matter, noted⟩

end SchedClass

end LoadableSched
