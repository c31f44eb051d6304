import LoadableSched.Proofs.Class.Opening
import LoadableSched.Proofs.Policy.Stamping
import Mathlib.Data.Int.ModEq

/-!
How long tasks wait under the policies that measure it: what the counters and the samples taken of them add up
to, against the times at which the tasks were queued and started.
-/

namespace LoadableSched

def Counters.together (which : Counter) (all : List Counters) : Nat :=
  (all.map fun c => (c.get which).toNat).sum

structure Delay where
  queued : Nanos
  started : Nanos
deriving DecidableEq, Repr

def Delay.nanos (t : Delay) : Nat := t.started.toNat - t.queued.toNat

structure Tallied (lanes : Bool) (all : List Counters) (delays : List Delay) : Prop where
  bound : Counters.together .enqueues all ≤ delays.length
  starts : Counters.together .enqueues all ≡ delays.length [MOD 2 ^ 64]
  waits : Counters.together .wait all ≡ (delays.map Delay.nanos).sum [MOD 2 ^ 64]
  balanced : lanes = true → ∀ c ∈ all, c.Balanced

namespace Tallied

variable {lanes : Bool} {samples : List Counters} {c d : Counters} {delays more : List Delay}

theorem together_append (which : Counter) (samples : List Counters) (c : Counters) :
    Counters.together which (samples ++ [c]) = Counters.together which samples + (c.get which).toNat := by
  simp [Counters.together]

theorem add (tallied : Tallied lanes (samples ++ [c]) delays) {starts waited : UInt64}
    (adds : c.Adds lanes starts waited d) (number : starts.toNat = more.length)
    (time : waited.toNat = (more.map Delay.nanos).sum) :
    Tallied lanes (samples ++ [d]) (delays ++ more) := by
  obtain ⟨bound, before, waits, balanced⟩ := tallied
  have started : (d.get .enqueues).toNat = ((c.get .enqueues).toNat + more.length) % 2 ^ 64 := by
    rw [← number]
    exact (congrArg UInt64.toNat adds.enqueues).trans (UInt64.toNat_add _ _)
  have added : (d.get .wait).toNat = ((c.get .wait).toNat + (more.map Delay.nanos).sum) % 2 ^ 64 := by
    rw [← time]
    exact (congrArg UInt64.toNat adds.wait).trans (UInt64.toNat_add _ _)
  rw [together_append] at bound before waits
  refine ⟨?_, ?_, ?_, fun told e member => ?_⟩
  · rw [together_append, started, List.length_append]
    have less := Nat.mod_le ((c.get .enqueues).toNat + more.length) (2 ^ 64)
    omega
  · rw [together_append, started, List.length_append]
    have counted := before.add_right more.length
    rw [Nat.add_assoc] at counted
    exact ((Nat.mod_modEq _ _).add_left _).trans counted
  · rw [together_append, added, List.map_append, List.sum_append]
    have counted := waits.add_right (more.map Delay.nanos).sum
    rw [Nat.add_assoc] at counted
    exact ((Nat.mod_modEq _ _).add_left _).trans counted
  · rcases List.mem_append.mp member with old | new
    · exact balanced told e (List.mem_append_left _ old)
    · rw [List.mem_singleton.mp new]
      exact adds.balanced told (balanced told c (List.mem_append_right _ (List.mem_singleton_self c)))

theorem idle (tallied : Tallied lanes (samples ++ [c]) delays) (adds : c.Adds lanes 0 0 d) :
    Tallied lanes (samples ++ [d]) delays := by
  have same : Tallied lanes (samples ++ [d]) (delays ++ []) := tallied.add adds rfl rfl
  rwa [List.append_nil] at same

theorem sampled (tallied : Tallied lanes samples delays) :
    Tallied lanes (samples ++ [Counters.zero]) delays := by
  have same : ∀ which, Counters.together which (samples ++ [Counters.zero]) =
      Counters.together which samples := by
    intro which
    rw [together_append]
    cases which <;> rfl
  refine ⟨same _ ▸ tallied.bound, same _ ▸ tallied.starts, same _ ▸ tallied.waits, fun told c member => ?_⟩
  rcases List.mem_append.mp member with old | new
  · exact tallied.balanced told c old
  · rw [List.mem_singleton.mp new]
    exact ⟨rfl, rfl⟩

end Tallied

namespace SchedClass

/-- What goes on around a policy: operations of the class, samples taken of the counters, and other changes of
the memory. -/
inductive Happening where
  | act (op : Operation Memory)
  | sample
  | edit (change : Memory → Memory)

namespace Happening

def newcomer : Happening → Option Pid
  | act op => op.newcomer
  | sample | edit _ => none

def elapsed : Happening → Nat
  | act (.advanceClock delta) => delta.toNat
  | _ => 0

def Spares (l : Ledger) : Happening → Prop
  | act op => op ≠ .uninstall ∧ ∀ m, op ≠ .setMemory m
  | sample => True
  | edit change => ∀ m times c, l.Holds m times c → l.Holds (change m) times c

end Happening

/-- A run under observation: when each task was queued last, all delays, and all samples taken. -/
structure Watch where
  here : SchedClass Memory
  since : Pid → Nanos
  delays : List Delay
  samples : List Counters

namespace Watch

def of (c : SchedClass Memory) : Watch := ⟨c, fun _ => 0, [], []⟩

def move (w : Watch) (started : Option Pid) (c : SchedClass Memory) : Watch where
  here := c
  since pid :=
    if c.state? pid = some .queued ∧ w.here.state? pid ≠ some .queued then c.clock else w.since pid
  delays := w.delays ++ (started.map fun pid => ⟨w.since pid, c.clock⟩).toList
  samples := w.samples

def step (counters : Nat) (w : Watch) : Happening → Watch
  | .act op => w.move (w.here.begun op) (w.here.step op)
  | .sample =>
    let (taken, memory) := w.here.memory.sample counters
    { w with here := { w.here with memory }, samples := w.samples ++ [taken] }
  | .edit change => { w with here := { w.here with memory := change w.here.memory } }

def steps (counters : Nat) (w : Watch) (happenings : List Happening) : Watch :=
  happenings.foldl (step counters) w

def recorded (counters : Nat) (w : Watch) : List Counters := w.samples ++ [w.here.memory.countersAt counters]

variable {w : Watch} {d : SchedClass Memory} {l : Ledger} {policy : Policy Memory} {b : Bookkeeping Memory}
  {pid : Pid} {started newcomer busy : Option Pid}

theorem since_kept (waited : w.here.state? pid = some .queued) : (w.move started d).since pid = w.since pid :=
  if_neg fun ⟨_, fresh⟩ => fresh waited

theorem since_reset (waits : d.state? pid = some .queued) (fresh : w.here.state? pid ≠ some .queued) :
    (w.move started d).since pid = d.clock :=
  if_pos ⟨waits, fresh⟩

/-- The ledger has the time of each task that waits, and all delays were counted. -/
structure Exact (l : Ledger) (w : Watch) : Prop where
  listed : ∀ pid, w.here.tasks.contains pid = true → pid ∈ l.pids
  timed : ∃ times c, l.Holds w.here.memory times c ∧
    (∀ pid, w.here.state? pid = some .queued → times pid = some (w.since pid)) ∧
    Tallied l.lanes (w.samples ++ [c]) w.delays
  past : ∀ pid, w.here.state? pid = some .queued → w.since pid ≤ w.here.clock
  ordered : ∀ t ∈ w.delays, t.queued ≤ t.started

theorem waited_before {c : SchedClass Memory} (calm : c.Calm newcomer busy d) (other : busy ≠ some pid)
    (waits : d.state? pid = some .queued) : c.state? pid = some .queued := by
  obtain ⟨slot, found, state⟩ := Option.map_eq_some_iff.mp waits
  rcases calm.others pid slot other found with asleep | same
  · rw [state] at asleep
    cases asleep
  · rw [SchedClass.state?, same, ← state]
    rfl

namespace Exact

variable {stamps : Pid → Option Nanos} {c : Counters}

theorem moved (exact : w.Exact l) (calm : w.here.Calm newcomer busy d)
    (member : ∀ pid, newcomer = some pid → pid ∈ l.pids) (holds : l.Holds d.memory stamps c)
    (others : ∀ pid, busy ≠ some pid → w.here.state? pid = some .queued → stamps pid = some (w.since pid))
    (own : ∀ pid, busy = some pid → d.state? pid = some .queued →
      w.here.state? pid ≠ some .queued ∧ stamps pid = some d.clock)
    (tallied : Tallied l.lanes (w.samples ++ [c]) (w.move started d).delays)
    (ordered : ∀ t ∈ (w.move started d).delays, t.queued ≤ t.started) : (w.move started d).Exact l := by
  have times : ∀ pid, d.state? pid = some .queued → stamps pid = some ((w.move started d).since pid) ∧
      (w.move started d).since pid ≤ d.clock := by
    intro pid waits
    by_cases here : busy = some pid
    · obtain ⟨fresh, noted⟩ := own pid here waits
      rw [since_reset waits fresh]
      exact ⟨noted, UInt64.le_refl _⟩
    · have waited := waited_before calm here waits
      rw [since_kept waited]
      exact ⟨others pid here waited, calm.clock ▸ exact.past pid waited⟩
  exact ⟨fun pid there => (calm.entered pid there).elim (exact.listed pid) (member pid),
    ⟨stamps, c, holds, fun pid waits => (times pid waits).1, tallied⟩, fun pid waits => (times pid waits).2,
    ordered⟩

theorem calm (exact : w.Exact l) (calm : w.here.Calm newcomer none d)
    (member : ∀ pid, newcomer = some pid → pid ∈ l.pids)
    (kept : ∀ stamps c, l.Holds w.here.memory stamps c →
      ∃ e, l.Holds d.memory stamps e ∧ c.Adds l.lanes 0 0 e) : (w.move none d).Exact l := by
  obtain ⟨stamps, c, before, right, tallied⟩ := exact.timed
  obtain ⟨e, after, adds⟩ := kept stamps c before
  refine exact.moved calm member after (fun pid _ => right pid) nofun ?_ ?_
  · simpa [move] using tallied.idle adds
  · simpa [move] using exact.ordered

theorem ready (exact : w.Exact l) {p : Placement} (calm : w.here.Calm newcomer (some p.pid) d)
    (member : ∀ pid, newcomer = some pid → pid ∈ l.pids) (fresh : w.here.state? p.pid ≠ some .queued)
    (kept : ∀ stamps c, l.Holds w.here.memory stamps c →
      ∃ e, l.Holds d.memory (Function.update stamps p.pid (some w.here.clock)) e ∧ c.Adds l.lanes 0 0 e) :
    (w.move none d).Exact l := by
  obtain ⟨stamps, c, before, right, tallied⟩ := exact.timed
  obtain ⟨e, after, adds⟩ := kept stamps c before
  refine exact.moved calm member after (fun pid other waited => ?_) (fun pid here _ => ?_) ?_ ?_
  · -- The entry of another task stands.
    have apart : pid ≠ p.pid := fun same => other (congrArg some same.symm)
    rw [Function.update_of_ne apart]
    exact right pid waited
  · cases Option.some.inj here
    rw [Function.update_self, calm.clock]
    exact ⟨fresh, rfl⟩
  · simpa [move] using tallied.idle adds
  · simpa [move] using exact.ordered

theorem start (exact : w.Exact l) (times : b.Times l) {slot : Slot} {cpu : CpuId}
    (found : w.here.tasks.get? pid = some slot) (waited : slot.state = .queued)
    (calm : w.here.Calm newcomer (some pid) d) (member : ∀ pid, newcomer = some pid → pid ∈ l.pids)
    (runs : d.tasks.get? pid = some ⟨slot.task.startOn cpu, .running cpu⟩)
    (start : b.start pid w.here.clock w.here.memory d.memory) : (w.move (some pid) d).Exact l := by
  obtain ⟨stamps, c, before, right, tallied⟩ := exact.timed
  have queued : w.here.state? pid = some .queued := by rw [SchedClass.state?, found, ← waited]; rfl
  obtain ⟨e, after, adds⟩ := times.start before (right pid queued) start
  refine exact.moved calm member after (fun other _ => right other) (fun other here waits => ?_) ?_
    fun t there => ?_
  · -- The task itself runs now, so nobody got ready.
    cases Option.some.inj here
    rw [SchedClass.state?, runs] at waits
    cases waits
  · refine tallied.add adds rfl ?_
    simp [Delay.nanos, subSat_toNat, calm.clock]
  · rcases List.mem_append.mp there with old | new
    · exact exact.ordered t old
    · cases List.mem_singleton.mp new
      exact calm.clock ▸ exact.past pid queued

theorem episode (exact : w.Exact l) (times : b.Times l) {made : List Placement}
    (member : ∀ pid, newcomer = some pid → pid ∈ l.pids)
    (episode : Episode b w.here newcomer made started d) : (w.move started d).Exact l := by
  cases episode with
  | still calm memory =>
    refine exact.calm calm member fun stamps c holds => ⟨c, ?_, .same rfl rfl id⟩
    rwa [memory]
  | @readies _ p slept calm holds ready =>
    have known := exact.listed p.pid (contains_of_state? slept)
    refine exact.ready calm member (by rw [slept]; nofun) fun stamps c before => ?_
    exact times.ready before known ready
  | starts found waited calm runs start => exact exact.start times found waited calm member runs start
  | rests calm halt => exact exact.calm calm member fun _ _ holds => times.halt holds halt
  | @returns _ p task m cpu ran calm holds halt ready =>
    have known := exact.listed p.pid (contains_of_state? ran)
    refine exact.ready calm member (by rw [ran]; nofun) fun stamps c before => ?_
    obtain ⟨between, stopped, first⟩ := times.halt before halt
    obtain ⟨after, entered, later⟩ := times.ready stopped known ready
    exact ⟨after, entered, first.trans later⟩

theorem advance (exact : w.Exact l) {delta : Nanos} (fits : w.here.clock.toNat + delta.toNat < 2 ^ 64) :
    (w.move none (w.here.advanceClock delta).2).Exact l := by
  obtain ⟨listed, timed, past, ordered⟩ := exact
  have same : ∀ pid, w.here.state? pid = some .queued →
      (w.move none (w.here.advanceClock delta).2).since pid = w.since pid := fun pid => since_kept
  obtain ⟨stamps, c, holds, right, tallied⟩ := timed
  refine ⟨listed, ⟨stamps, c, holds, fun pid waits => ?_, ?_⟩, fun pid waits => ?_, ?_⟩
  · rw [same pid waits]
    exact right pid waits
  · simpa [move] using tallied
  · rw [same pid waits]
    refine UInt64.le_trans (past pid waits) (UInt64.le_iff_toNat_le.mpr ?_)
    rw [move, advanceClock, UInt64.toNat_add, Nat.mod_eq_of_lt fits]
    exact Nat.le_add_right _ _
  · simpa [move] using ordered

theorem sample (exact : w.Exact l) : (w.step l.counters .sample).Exact l := by
  obtain ⟨stamps, c, holds, right, tallied⟩ := exact.timed
  obtain ⟨taken, left⟩ := holds.sample
  refine ⟨exact.listed, ⟨stamps, _, left, right, ?_⟩, exact.past, exact.ordered⟩
  rw [← taken] at tallied
  exact tallied.sampled

theorem edit (exact : w.Exact l) {change : Memory → Memory} (spares : (Happening.edit change).Spares l) :
    (w.step l.counters (.edit change)).Exact l := by
  obtain ⟨stamps, c, holds, right, tallied⟩ := exact.timed
  exact ⟨exact.listed, ⟨stamps, c, spares _ _ _ holds, right, tallied⟩, exact.past, exact.ordered⟩

end Exact

structure Sound (policy : Policy Memory) (l : Ledger) (w : Watch) : Prop where
  steady : w.here.Steady
  active : w.here.policy = some policy
  exact : w.Exact l

theorem Sound.remember (sound : w.Sound policy l) (m : Memory) :
    { w.here with memory := m }.Steady ∧ { w.here with memory := m }.policy = some policy :=
  have kept : Operation.setMemory m ≠ .uninstall := nofun
  sound.steady.kept sound.active kept

theorem Sound.step (sound : w.Sound policy l) (records : policy.Records b) (times : b.Times l) {h : Happening}
    (spares : h.Spares l) (member : ∀ pid, h.newcomer = some pid → pid ∈ l.pids)
    (fits : w.here.clock.toNat + h.elapsed < 2 ^ 64) :
    (w.step l.counters h).Sound policy l ∧
      (w.step l.counters h).here.clock.toNat = w.here.clock.toNat + h.elapsed := by
  cases h with
  | act op =>
    obtain ⟨kept, within⟩ := spares
    obtain ⟨steady, active⟩ := sound.steady.kept sound.active kept
    by_cases drives : op.Drives
    · have episode := step_episode records sound.active sound.steady drives
      have still : (Happening.act op).elapsed = 0 := by
        cases op with
        | advanceClock delta => exact drives.elim
        | _ => rfl
      rw [still, Nat.add_zero]
      exact ⟨⟨steady, active, sound.exact.episode times member episode⟩,
        congrArg UInt64.toNat episode.clock⟩
    · cases op with
      | uninstall => exact absurd rfl kept
      | setMemory m => exact absurd rfl (within m)
      | advanceClock delta =>
        exact ⟨⟨steady, active, sound.exact.advance fits⟩,
          (UInt64.toNat_add _ _).trans (Nat.mod_eq_of_lt fits)⟩
      | _ => exact absurd trivial drives
  | sample =>
    obtain ⟨steady, active⟩ := sound.remember (w.here.memory.sample l.counters).2
    exact ⟨⟨steady, active, sound.exact.sample⟩, rfl⟩
  | edit change =>
    obtain ⟨steady, active⟩ := sound.remember (change w.here.memory)
    exact ⟨⟨steady, active, sound.exact.edit spares⟩, rfl⟩

theorem Sound.steps (sound : w.Sound policy l) (records : policy.Records b) (times : b.Times l)
    {happenings : List Happening} (spares : ∀ h ∈ happenings, h.Spares l)
    (member : ∀ h ∈ happenings, ∀ pid, h.newcomer = some pid → pid ∈ l.pids)
    (fits : w.here.clock.toNat + (happenings.map Happening.elapsed).sum < 2 ^ 64) :
    (w.steps l.counters happenings).Sound policy l := by
  induction happenings generalizing w with
  | nil => exact sound
  | cons h rest ih =>
    -- The clock goes on by what elapsed first, which leaves it room for the rest.
    rw [List.map_cons, List.sum_cons, ← Nat.add_assoc] at fits
    obtain ⟨next, clock⟩ := sound.step records times (spares h List.mem_cons_self)
      (member h List.mem_cons_self) (Nat.lt_of_le_of_lt (Nat.le_add_right _ _) fits)
    exact ih next (fun h there => spares h (List.mem_cons_of_mem _ there))
      (fun h there => member h (List.mem_cons_of_mem _ there)) (by rwa [clock])

theorem opens {c : SchedClass Memory} {m : Memory} (opened : c.Opened policy m)
    (fresh : m.stores[l.map]? = some (Store.empty .lruHash taskMapLayout))
    (unused : m.counters[l.counters]? = some Counters.zero) (room : l.pids.length ≤ taskMapCapacity.toNat) :
    (of c).Sound policy l := by
  have nobody : ∀ pid, c.state? pid ≠ some .queued := fun pid waits => by
    rw [SchedClass.state?, opened.empty] at waits
    cases waits
  refine ⟨opened.steady, opened.active, fun pid there => ?_, ⟨fun _ => none, Counters.zero, ?_, ?_, ?_⟩,
    fun pid waits => absurd waits (nobody pid), List.forall_mem_nil _⟩
  · rw [of, Table.contains_eq, opened.empty] at there
    cases there
  · rw [of, opened.memory]
    refine ⟨⟨_, fresh, rfl, ⟨rfl, List.nodup_nil, List.forall_mem_nil _, ?_⟩, fun _ => rfl⟩, unused⟩
    rw [List.length_map]
    exact room
  · exact fun pid waits => absurd waits (nobody pid)
  · refine ⟨Nat.le_refl 0, rfl, rfl, fun _ c member => ?_⟩
    cases List.mem_singleton.mp member
    exact ⟨rfl, rfl⟩

end Watch

/-- The policies that time their tasks, each with its ledger. -/
inductive KeepsTime : Policy Memory → Ledger → Prop where
  | roundRobin (r : RoundRobin) (pids : List Pid) :
    KeepsTime r.policy ⟨r.enqueueTime, r.counters, pids, false⟩
  | ioPriority (p : IoPriority) (apart : p.maps.enqueueTime ≠ p.maps.sliceUsage) (pids : List Pid) :
    KeepsTime p.policy ⟨p.maps.enqueueTime, p.counters, pids, true⟩

theorem KeepsTime.keeps {policy : Policy Memory} {l : Ledger} (keeps : KeepsTime policy l) :
    ∃ own b, policy.Conforms own ∧ policy.Records b ∧ b.Times l := by
  cases keeps with
  | roundRobin r pids => exact ⟨_, _, r.conforms, r.records, r.times pids⟩
  | ioPriority p apart pids => exact ⟨_, _, p.conforms, p.records, p.times apart pids⟩

/-- A policy that times its tasks is installed before the first of them, with a fresh store for no more tasks
than it has room for and with fresh counters, and stays. Then all samples taken so far and what the counters
hold now add up to the tasks started, and to the time that these had waited since they were queued last; and
where the two queues are told apart, their counts make up all, in each sample. -/
theorem waits_are_recorded_exactly (cpus : Nat) (memory : Memory) (before : List (Operation Memory))
    (early : ∀ op ∈ before, ∀ task, op ≠ .addTask task) {policy : Policy Memory} {l : Ledger}
    (keeps : KeepsTime policy l)
    (installed : (((new cpus memory).steps before).install policy).1 = .ok ())
    (fresh : ((new cpus memory).steps before).memory.stores[l.map]? =
      some (Store.empty .lruHash taskMapLayout))
    (unused : ((new cpus memory).steps before).memory.counters[l.counters]? = some Counters.zero)
    (room : l.pids.length ≤ taskMapCapacity.toNat) {happenings : List Happening}
    (spares : ∀ h ∈ happenings, h.Spares l)
    (listed : ∀ h ∈ happenings, ∀ pid, h.newcomer = some pid → pid ∈ l.pids) :
    let start := (new cpus memory).steps (before ++ [.install policy])
    let w := (Watch.of start).steps l.counters happenings
    let all := w.recorded l.counters
    start.clock.toNat + (happenings.map Happening.elapsed).sum < 2 ^ 64 →
      (Counters.together .enqueues all ≡ w.delays.length [MOD 2 ^ 64] ∧
        (w.delays.length < 2 ^ 64 → Counters.together .enqueues all = w.delays.length)) ∧
      (∀ d ∈ w.delays, d.queued ≤ d.started) ∧
      Counters.together .wait all ≡ (w.delays.map Delay.nanos).sum [MOD 2 ^ 64] ∧
      (l.lanes = true → ∀ c ∈ all, c.Balanced) := by
  intro start w all fits
  obtain ⟨own, b, conforms, records, times⟩ := keeps.keeps
  have opened := opened cpus memory early conforms records installed
  have sound := (Watch.opens opened fresh unused room).steps records times spares listed fits
  obtain ⟨stamps, c, holds, _, tallied⟩ := sound.exact.timed
  rw [← holds.countersAt_eq] at tallied
  refine ⟨⟨tallied.starts, fun small => ?_⟩, sound.exact.ordered, tallied.waits, tallied.balanced⟩
  exact tallied.starts.eq_of_lt_of_lt (Nat.lt_of_le_of_lt tallied.bound small) small

def twoTurns : List Happening :=
  [.act (.addTask { pid := 1 }), .act (.enqueue 1 0), .act (.advanceClock 1000), .act (.pickNext 0), .sample,
    .edit fun m => (m.read 0 1).2, .act (.advanceClock 500), .act (.stop 0 500 true),
    .act (.advanceClock 250), .act (.pickNext 0)]

theorem two_turns_are_recorded :
    let p : IoPriority := ⟨20000000, 5000000, 50, .lastSample, ⟨0, 1⟩, 0⟩
    let start := (new 1 Memory.empty.newTaskMaps.2.newCounters.2).steps ([] ++ [.install p.policy])
    let w := (Watch.of start).steps 0 twoTurns
    w.delays = [⟨0, 1000⟩, ⟨1500, 1750⟩] ∧ Counters.together .enqueues (w.recorded 0) = 2 ∧
      Counters.together .wait (w.recorded 0) ≡ 1250 [MOD 2 ^ 64] ∧ ∀ c ∈ w.recorded 0, c.Balanced := by
  intro p start w
  have looks : ∀ h ∈ twoTurns, h.Spares ⟨0, 0, [1], true⟩ := by
    simp only [twoTurns, List.mem_cons, List.not_mem_nil, or_false, forall_eq_or_imp, forall_eq,
      Happening.Spares]
    simpa using fun m times c holds => (Ledger.Holds.read holds 1).2
  have exact := waits_are_recorded_exactly 1 Memory.empty.newTaskMaps.2.newCounters.2 [] nofun
    (l := ⟨0, 0, [1], true⟩) (.ioPriority p (by decide) [1]) (by decide +kernel) rfl rfl (by decide) looks
    (by simp [twoTurns, Happening.newcomer, Operation.newcomer]) (by decide +kernel)
  have turns : w.delays = [⟨0, 1000⟩, ⟨1500, 1750⟩] := by decide +kernel
  obtain ⟨⟨_, starts⟩, _, waits, balanced⟩ := exact
  exact ⟨turns, by rw [starts (by rw [turns]; decide), turns]; rfl, by rw [turns] at waits; exact waits,
    balanced rfl⟩

end SchedClass

end LoadableSched
