import LoadableSched.Proofs.Class.Conserving

/-!
Priority for I/O: which line a task joins is decided by the exact share of the slice that it is recorded to
use, and the line of those that use little is served first.
-/

namespace LoadableSched

/-! The share of the slice. -/

theorem Tunables.sound_of_valid {t : Tunables} (valid : t.validate = .ok ()) :
    t.slice ≠ 0 ∧ t.prioSlice ≠ 0 ∧ t.prioThreshold ≤ 100 := by
  unfold validate at valid
  split at valid
  · cases valid
  · rename_i positive
    split at valid
    · cases valid
    · rename_i bounded
      simp only [Bool.or_eq_true, decide_eq_true_eq, not_or] at positive
      exact ⟨positive.1, positive.2, UInt64.not_lt.mp bounded⟩

theorem Usage.percent_lt_iff {slice threshold : UInt64} (positive : slice ≠ 0) (bounded : threshold ≤ 100)
    (sample : Option Nanos) :
    percent sample slice < threshold ↔
      ∃ u, sample = some u ∧ 100 * u.toNat < threshold.toNat * slice.toNat := by
  cases sample with
  | none => simpa [percent, worstPercent] using UInt64.not_lt.mpr bounded
  | some u =>
    have divisor : 0 < slice.toNat :=
      Nat.pos_of_ne_zero fun zero => positive (UInt64.toNat_inj.mp zero)
    have small : threshold.toNat ≤ maxWord := by
      have least : threshold.toNat ≤ 100 := UInt64.le_iff_toNat_le.mp bounded
      exact Nat.le_trans least (by decide)
    have limit : min (u.toNat * 100 / slice.toNat) maxWord < threshold.toNat ↔
        u.toNat * 100 / slice.toNat < threshold.toNat := by omega
    rw [percent, if_neg positive, UInt64.lt_iff_toNat_lt, clampWord_toNat, limit,
      Nat.div_lt_iff_lt_mul divisor, Nat.mul_comm u.toNat]
    simp

/-! The queues of a policy hold different tasks. -/

theorem Queues.lines_apart {q : Queues} (sound : q.WellFormed) (distinct : q.waiting.Nodup)
    {queue other : QueueId} (apart : queue ≠ other) {pid : Pid} (here : pid ∈ q.line queue) :
    pid ∉ q.line other := by
  intro there
  have entry : ∀ {number : QueueId}, pid ∈ q.line number → ∃ pids, (number, pids) ∈ q.shared.entries ∧
      pid ∈ pids := by
    intro number member
    unfold line at member
    cases found : q.shared.get? number with
    | none => simp [found] at member
    | some pids => exact ⟨pids, (sound.ordered.get?_eq_some_iff _ _).mp found, by simpa [found] using member⟩
  obtain ⟨pids, first, inFirst⟩ := entry here
  obtain ⟨others, second, inSecond⟩ := entry there
  have disjoint := (List.nodup_flatten.mp (List.nodup_append.mp distinct).1).2
  rw [Table.values, List.pairwise_map] at disjoint
  have symmetric : Std.Symm fun a b : QueueId × List Pid => a.2.Disjoint b.2 :=
    ⟨fun _ _ sep _ first second => sep second first⟩
  have other : (queue, pids) ≠ (other, others) := fun same => apart (congrArg Prod.fst same)
  exact disjoint.forall first second other inFirst inSecond

namespace IoPriority

/-- Where the policy puts a task that is ready, and with which slice. -/
def lane (p : IoPriority) (bound : Bool) (pid : Pid) : Placement :=
  if bound then ⟨pid, prioQueue, p.prioSlice⟩ else ⟨pid, normalQueue, p.slice⟩

theorem enqueue_requests (p : IoPriority) (cpu : CpuId) (now : Nanos) (s : Progress Memory) (task : Task)
    (flags : UInt64) :
    (p.policy.enqueue task flags).moves cpu now s = [] ∧
      ((p.policy.enqueue task flags).requests cpu now s).map (·.2) =
        [.place (p.lane (p.isIoBound task.pid s.memory).1 task.pid)] := by
  simp only [IoPriority.policy, lane]
  rw [Callback.moves_sequence, Callback.requests_sequence, Callback.run_update]
  by_cases bound : (p.isIoBound task.pid s.memory).1 = true
  · rw [if_pos bound, if_pos bound]
    exact ⟨rfl, rfl⟩
  · rw [if_neg bound, if_neg bound]
    exact ⟨rfl, rfl⟩

theorem isIoBound_iff {t : Tunables} (valid : t.validate = .ok ()) (model : UsageModel) (maps : TaskMaps)
    (counters : Nat) (pid : Pid) (m : Memory) :
    ((ofTunables t model maps counters).isIoBound pid m).1 = true ↔
      ∃ u, (m.read maps.sliceUsage pid).1 = some u ∧
        100 * u.toNat < t.prioThreshold.toNat * t.slice.toNat := by
  obtain ⟨positive, _, bounded⟩ := Tunables.sound_of_valid valid
  rw [← Usage.percent_lt_iff positive bounded]
  exact decide_eq_true_iff

end IoPriority

namespace SchedClass

variable {c : SchedClass Memory}

/-- The callback ends with the policy in place and one more task in a line, at its end, that waits there with
the slice given to it. -/
structure Inquiry.Appends (i : Inquiry Memory) (p : Placement) : Prop where
  stays : i.after.policy = some i.policy
  lines : ∀ queue, i.after.queues.line queue =
    i.before.queues.line queue ++ if queue = p.queue then [p.pid] else []
  own : ∀ cpu, i.after.queues.ownLine cpu = i.before.queues.ownLine cpu
  holds : i.after.Holds p

theorem Inquiry.appends_lane {i : Inquiry Memory} {p : IoPriority} (active : i.before.policy = some i.policy)
    (same : i.policy = p.policy) (fine : i.failure = none) {pid : Pid} {task : Task} {cpu : CpuId}
    {flags : UInt64} (asked : i.matter = .enqueue pid task cpu flags) :
    i.Appends (p.lane (p.isIoBound pid i.before.memory).1 pid) := by
  obtain ⟨still, requested⟩ := p.enqueue_requests cpu i.before.clock
    ⟨i.before.queues, [], none, i.before.memory⟩ task flags
  have dispatches : i.dispatches = [p.lane (p.isIoBound task.pid i.before.memory).1 task.pid] := by
    have split : i.dispatches = (i.requests.map (·.2)).filterMap Request.placement? := by
      rw [List.filterMap_map]
      rfl
    rw [split, requests, same, asked, Policy.answer, Callback.requests_map]
    exact congrArg (List.filterMap Request.placement?) requested
  have unmoved : i.moved = [] := by
    rw [moved, same, asked, Policy.answer, Callback.moves_map]
    exact still
  have placed : ∀ bound, (p.lane bound task.pid).pid = task.pid ∧
      (p.lane bound task.pid).queue ≠ localQueue := by
    intro bound
    cases bound with
    | true => exact ⟨rfl, show IoPriority.prioQueue ≠ localQueue by decide⟩
    | false => exact ⟨rfl, show IoPriority.normalQueue ≠ localQueue by decide⟩
  have number : task.pid = pid := by
    have reasons : i.reasons = [] := List.head?_eq_none_iff.mp (i.failure_eq ▸ fine)
    have omitted : i.omissions = [] := (List.append_eq_nil_iff.mp reasons).2
    simpa [omissions, asked, dispatches, (placed _).1] using omitted
  subst number
  have flows := i.called_flows
  obtain ⟨puts, holds⟩ := applied_of_placed fine (by rintro ⟨_, _, enables⟩; rw [asked] at enables; cases enables)
  rw [dispatches] at puts holds
  rw [unmoved] at flows
  obtain ⟨number, shared⟩ := placed (p.isIoBound task.pid i.before.memory).1
  generalize p.lane (p.isIoBound task.pid i.before.memory).1 task.pid = lane at *
  refine ⟨?_, fun queue => ?_, fun other => ?_, holds _ (List.mem_singleton_self _)⟩
  · rw [after_fine fine, (reached_retains _).policy, active]
  · rw [puts.lines, ← show _ = i.called.queues.line queue from flows.lines queue]
    by_cases here : queue = lane.queue
    · simp [here, shared]
    · simp [here, Ne.symm here]
  · rw [puts.own, show i.called.queues.ownLine other = _ from flows.own other]
    simp [shared]

theorem absent_elsewhere {c : SchedClass Memory} (agrees : c.Agrees []) {ahead queue : QueueId}
    (apart : ahead ≠ queue) {first pid : Pid} (here : first ∈ c.queues.line ahead) {cpu : CpuId}
    (taken : (c.queues.ownLine cpu).head?.or (some first) = some pid) : pid ∉ c.queues.line queue := by
  intro there
  cases own : (c.queues.ownLine cpu).head? with
  | some head =>
    rw [own] at taken
    cases taken
    exact (List.nodup_append.mp agrees.distinct).2.2 pid (Queues.mem_waiting_of_line there) pid
      (Queues.mem_waiting_of_ownLine (List.mem_of_head? own)) rfl
  | none =>
    rw [own] at taken
    cases taken
    exact Queues.lines_apart agrees.queues agrees.distinct apart here there

/-- Where only policies that come with the host were ever installed, a policy with valid settings puts each
task that it enqueues at the end of the line that is served first if a usage is recorded for the task whose
share of the slice is less than the threshold, and else at the end of the other line. A processor without a
task takes the head of its own line, else of the first of these two, else of the second, else of the global
line, so that nobody leaves the second while somebody stands in the first. -/
theorem io_bound_tasks_are_served_first (cpus : Nat) (memory : Memory) {ops : List (Operation Memory)}
    (ships : ∀ op ∈ ops, op.Ships) {t : Tunables} (valid : t.validate = .ok ()) (model : UsageModel)
    (maps : TaskMaps) (counters : Nat) (active : ((new cpus memory).steps ops).policy =
      some (IoPriority.ofTunables t model maps counters).policy) :
    let c := (new cpus memory).steps ops
    (∀ op, ∀ i ∈ c.inquiries op, ∀ pid task cpu flags, i.matter = .enqueue pid task cpu flags →
      let bound := ∃ u, (i.before.memory.read maps.sliceUsage pid).1 = some u ∧
        100 * u.toNat < t.prioThreshold.toNat * t.slice.toNat
      (bound → i.Appends ⟨pid, IoPriority.prioQueue, t.prioSlice⟩) ∧
      (¬ bound → i.Appends ⟨pid, IoPriority.normalQueue, t.slice⟩)) ∧
    ∀ cpu, cpu < c.cpus → c.current? cpu = none →
      (c.pickNext cpu).1 = .ok ((c.queues.ownLine cpu).head?.or
        ((c.queues.line IoPriority.prioQueue).head?.or
          ((c.queues.line IoPriority.normalQueue).head?.or (c.queues.line globalQueue).head?))) ∧
      (c.queues.line IoPriority.prioQueue ≠ [] →
        (c.pickNext cpu).2.queues.line IoPriority.normalQueue = c.queues.line IoPriority.normalQueue) := by
  intro c
  have steady : c.Steady := Steady.run cpus memory fun op member => (ships op member).conforms
  have vacant : c.Vacant := steps_vacant (new_vacant cpus memory) ops
  have housed : c.Housed := steps_housed (new_vacant cpus memory) nofun ops
  have served := Served.of_housed housed active (IoPriority.drains _)
  refine ⟨fun op i asked pid task cpu flags matter => ?_, fun cpu known free => ?_⟩
  · obtain ⟨same, there, fine⟩ := steady.fine active asked
    have appends := Inquiry.appends_lane (there.trans (congrArg some same.symm)) same fine matter
    have decides := IoPriority.isIoBound_iff valid model maps counters pid i.before.memory
    constructor
    · intro bound
      rw [decides.mpr bound] at appends
      exact appends
    · intro other
      rw [Bool.eq_false_iff.mpr fun is => other (decides.mp is)] at appends
      exact appends
  · obtain ⟨result, _, sheds⟩ := pickNext_served steady.agrees steady.backed served known free
    have next : c.foremost [IoPriority.prioQueue, IoPriority.normalQueue] cpu =
        (c.queues.ownLine cpu).head?.or ((c.queues.line IoPriority.prioQueue).head?.or
          ((c.queues.line IoPriority.normalQueue).head?.or (c.queues.line globalQueue).head?)) := by
      simp only [foremost, Queues.foremost, Option.or_none, Option.map_or, Option.map_map,
        Function.comp_def, Option.map_id', Option.or_assoc]
    rw [result, next]
    rw [next] at sheds
    refine ⟨rfl, fun somebody => ?_⟩
    obtain ⟨first, rest, standing⟩ := List.exists_cons_of_ne_nil somebody
    rw [sheds.lines]
    have here : first ∈ c.queues.line IoPriority.prioQueue := standing ▸ List.mem_cons_self
    rw [standing, List.head?_cons, Option.some_or]
    cases taken : (c.queues.ownLine cpu).head?.or (some first) with
    | none => rfl
    | some pid =>
      have missing : pid ∉ c.queues.line IoPriority.normalQueue :=
        absent_elsewhere steady.agrees (by decide) here taken
      simp [List.diff_cons, List.erase_of_not_mem missing]

def briskSettings : Tunables := { Tunables.default with prioSlice := 5000000 }

def briskRun : List (Operation Memory) :=
  [.install (IoPriority.ofTunables briskSettings .lastSample ⟨0, 1⟩ 0).policy, .addTask { pid := 1 },
    .addTask { pid := 2 }, .setMemory ((Memory.empty.newTaskMaps.2.newCounters.2).write 1 2 100000),
    .enqueue 1 0, .enqueue 2 0]

theorem brisk_task_overtakes :
    let c := (new 1 Memory.empty).steps briskRun
    briskSettings.validate = .ok () ∧ c.queues.line IoPriority.normalQueue = [1] ∧
      c.queues.line IoPriority.prioQueue = [2] ∧ (c.pickNext 0).1 = .ok (some 2) ∧
      (c.pickNext 0).2.queues.line IoPriority.normalQueue = [1] := by
  intro c
  have ships : ∀ op ∈ briskRun, op.Ships := by
    intro op member
    simp only [briskRun, List.mem_cons, List.not_mem_nil, or_false] at member
    rcases member with rfl | rfl | rfl | rfl | rfl | rfl
    · exact Policy.IsShipped.ioPriority _
    all_goals trivial
  have valid : briskSettings.validate = .ok () := rfl
  have normal : c.queues.line IoPriority.normalQueue = [1] := by decide +kernel
  have prio : c.queues.line IoPriority.prioQueue = [2] := by decide +kernel
  have own : c.queues.ownLine 0 = [] := by decide +kernel
  obtain ⟨_, serves⟩ := io_bound_tasks_are_served_first 1 Memory.empty ships valid .lastSample ⟨0, 1⟩ 0 rfl
  obtain ⟨result, spared⟩ := serves 0 (by decide +kernel) (by decide +kernel)
  have taken : (c.pickNext 0).1 = .ok ((c.queues.ownLine 0).head?.or
      ((c.queues.line IoPriority.prioQueue).head?.or _)) := result
  rw [own, prio] at taken
  have somebody : c.queues.line IoPriority.prioQueue ≠ [] := by
    rw [prio]
    exact List.cons_ne_nil 2 []
  exact ⟨valid, normal, prio, taken, (spared somebody).trans normal⟩

end SchedClass

end LoadableSched
