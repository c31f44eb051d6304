import LoadableSched.Proofs.Class.Dispatching
import LoadableSched.Proofs.Class.Leading

/-!
Where the tasks are once a policy is gone, for whatever reason and in the middle of whatever it did: those
of its queues, and those that waited on no queue, stand at the end of the global line.
-/

namespace LoadableSched

variable {ω : Type}

def Slot.renew (slot : Slot) : Slot := ⟨{ slot.task with slice := defaultSlice }, .queued⟩

theorem Slot.renew_renew (slot : Slot) : slot.renew.renew = slot.renew := rfl

namespace SchedClass

variable {c d : SchedClass ω}

def strays (c : SchedClass ω) : List Pid := c.stranded []

def migrants (c : SchedClass ω) : List Pid := c.queues.policyNumbers.flatMap c.queues.line ++ c.strays

/-- From `c` to `d` the tasks of a policy's queues, by the number of the queue and the place in line, and
then the tasks that waited on no queue went to the global line; all else is as it was. -/
structure Migrates (c d : SchedClass ω) : Prop where
  numbers : c.queues.policyNumbers.Pairwise (· < ·) ∧ ∀ queue, queue ∈ c.queues.policyNumbers ↔
    c.queues.shared.contains queue = true ∧ isBuiltin queue = false
  strays : c.strays.Pairwise (· < ·) ∧ ∀ pid, pid ∈ c.strays ↔
    c.state? pid = some .queued ∧ pid ∉ c.queues.waiting
  line : d.queues.line globalQueue = c.queues.line globalQueue ++ c.migrants
  slots : ∀ pid, d.tasks.get? pid =
    if pid ∈ c.migrants then (c.tasks.get? pid).map Slot.renew else c.tasks.get? pid
  own : d.queues.locals = c.queues.locals
  idle : d.queues.idle = c.queues.idle
  current : d.current = c.current
  registered : d.tasks.keys = c.tasks.keys
  cleared : d.queues.OnlyBuiltin

theorem Migrates.congr {e f : SchedClass ω} (h : c.Migrates d)
    (before : (e.queues, e.tasks, e.current) = (c.queues, c.tasks, c.current))
    (after : (f.queues, f.tasks, f.current) = (d.queues, d.tasks, d.current)) : e.Migrates f := by
  obtain ⟨_, queues, tasks, current⟩ := e
  obtain ⟨_, queues', tasks', current'⟩ := f
  cases before
  cases after
  exact ⟨h.numbers, h.strays, h.line, h.slots, h.own, h.idle, h.current, h.registered, h.cleared⟩

theorem enqueueGlobal_slots (present : c.queues.shared.contains globalQueue = true) (pid : Pid) :
    ∃ d, c.enqueueGlobal pid = .ok d ∧ d.tasks = c.tasks.modify pid Slot.renew ∧
      d.queues.locals = c.queues.locals ∧ d.queues.idle = c.queues.idle ∧ d.current = c.current := by
  have apart : ¬ globalQueue = localQueue := by decide
  simp only [enqueueGlobal, Queues.push, if_neg apart, if_pos present]
  exact ⟨_, rfl, rfl, rfl, rfl, rfl⟩

theorem enqueueAllGlobal_slots (present : c.queues.shared.contains globalQueue = true)
    (pids : List Pid) :
    (∀ pid, (c.enqueueAllGlobal pids).tasks.get? pid =
      if pid ∈ pids then (c.tasks.get? pid).map Slot.renew else c.tasks.get? pid) ∧
    (c.enqueueAllGlobal pids).tasks.keys = c.tasks.keys ∧
    (c.enqueueAllGlobal pids).queues.locals = c.queues.locals ∧
    (c.enqueueAllGlobal pids).queues.idle = c.queues.idle ∧
    (c.enqueueAllGlobal pids).current = c.current := by
  induction pids generalizing c with
  | nil => exact ⟨by simp [enqueueAllGlobal], rfl, rfl, rfl, rfl⟩
  | cons pid rest ih =>
    obtain ⟨d, made, tasks, locals, flags, running⟩ := enqueueGlobal_slots present pid
    have still := (enqueueGlobal_sameNumbers made globalQueue).trans present
    obtain ⟨slots, keys, own, idle, current⟩ := ih still
    have unfolded : c.enqueueAllGlobal (pid :: rest) = d.enqueueAllGlobal rest := by
      simp only [enqueueAllGlobal, List.foldl_cons, made, Except.toOption, Option.getD_some]
    rw [unfolded]
    rw [tasks] at slots keys
    refine ⟨fun other => ?_, keys.trans (Table.keys_modify _ _ _), own.trans locals,
      idle.trans flags, current.trans running⟩
    rw [slots, Table.get?_modify]
    by_cases here : other = pid
    · by_cases again : pid ∈ rest
      · simp [here, again, Function.comp_def, Slot.renew_renew]
      · simp [here, again]
    · simp [here]

section

variable (tidy : c.Tidy)

include tidy

theorem strays_spec : c.strays.Pairwise (· < ·) ∧ ∀ pid, pid ∈ c.strays ↔
    c.state? pid = some .queued ∧ pid ∉ c.queues.waiting := by
  refine ⟨tidy.tasks.filter _, fun pid => (mem_stranded tidy.tasks [] pid).trans ?_⟩
  simp

theorem stranded_eq : c.orphaned.stranded c.queues.destroyPolicyQueues.1 = c.strays := by
  have moved := (Queues.destroyPolicyQueues_shifts tidy.queues).waiting
  have split : ∀ pid, pid ∈ c.queues.waiting ↔
      pid ∈ c.queues.destroyPolicyQueues.1 ∨ pid ∈ c.queues.destroyPolicyQueues.2.waiting := by
    intro pid
    have members := moved.mem_iff (a := pid)
    rw [List.append_nil, List.mem_append] at members
    exact members.symm.trans or_comm
  have same : ∀ pid, (!c.queues.destroyPolicyQueues.1.contains pid &&
      !c.queues.destroyPolicyQueues.2.contains pid) = !c.queues.contains pid := by
    intro pid
    rw [Bool.eq_iff_iff]
    simp [Queues.contains, split pid]
  unfold strays stranded orphaned
  simp only [Bool.and_assoc, same]
  simp

theorem requeueOrphans_migrates : c.Migrates c.requeueOrphans := by
  have present := (Queues.destroyPolicyQueues_shifts tidy.queues).wellFormed.global
  obtain ⟨orphans, kept, _⟩ := Queues.destroyPolicyQueues_lines tidy.queues
  have whole : c.requeueOrphans = c.orphaned.enqueueAllGlobal c.migrants := by
    have order : c.migrants = c.queues.destroyPolicyQueues.1 ++
        c.orphaned.stranded c.queues.destroyPolicyQueues.1 := by
      rw [migrants, orphans, ← orphans, stranded_eq tidy]
    rw [order]
    rfl
  obtain ⟨lines, _⟩ := enqueueAllGlobal_lines (c := c.orphaned) present c.migrants
  obtain ⟨slots, keys, own, idle, current⟩ :=
    enqueueAllGlobal_slots (c := c.orphaned) present c.migrants
  have cleared := requeueOrphans_onlyBuiltin c
  rw [whole] at cleared ⊢
  refine ⟨Queues.policyNumbers_spec tidy.queues, strays_spec tidy, ?_, slots, own, idle, current, keys,
    cleared⟩
  rw [lines, if_pos rfl]
  exact congrArg (· ++ _) (kept globalQueue (by decide))

end

theorem Inquiry.after_migrates {i : Inquiry ω} (active : i.before.policy = some i.policy)
    (tidy : i.before.Tidy) (failed : i.failure ≠ none) : i.reached.Migrates i.after := by
  obtain ⟨reason, failed⟩ := Option.ne_none_iff_exists'.mp failed
  have reached : i.reached.Tidy := tidy.reached
  have migrates := requeueOrphans_migrates (c := { i.reached with policy := none })
    ⟨reached.queues, reached.tasks⟩
  by_cases first : i.matter = .init
  · exact migrates.congr rfl (by rw [after_refused failed first])
  · have there := i.reached_retains.policy.trans active
    exact migrates.congr rfl (by simp only [after_failed failed first, abort, there])

/-- In every state that a run reaches, and at every point of an operation where a policy can go: its tasks
migrate to the global queue, and nobody else notices. -/
theorem tasks_migrate_when_policy_goes (cpus : Nat) (memory : ω) (ops : List (Operation ω)) :
    let c := (new cpus memory).steps ops
    (c.isActive = true → c.uninstall.2.policy = none ∧ c.Migrates c.uninstall.2) ∧
    ∀ op, ∀ i ∈ c.inquiries op, i.failure ≠ none →
      i.after.policy = none ∧ i.reached.Migrates i.after := by
  intro c
  obtain ⟨agrees, backed, _⟩ := new_agrees cpus memory
  have reached := (steps_agree agrees backed ops).1
  have tidy : c.Tidy := ⟨reached.queues, reached.tasks⟩
  constructor
  · intro working
    obtain ⟨policy, active⟩ := Option.isSome_iff_exists.mp working
    have gone : c.uninstall.2 = { c with policy := none }.requeueOrphans := by
      simp only [uninstall, active]
    have migrates := requeueOrphans_migrates (c := { c with policy := none })
      ⟨tidy.queues, tidy.tasks⟩
    rw [gone]
    exact ⟨(requeueOrphans_retains { c with policy := none }).policy, migrates.congr rfl rfl⟩
  · intro op i asked failed
    obtain ⟨active, ordered⟩ := mem_inquiries asked
    exact ⟨(i.after_policy active).mpr failed, i.after_migrates active (ordered tidy) failed⟩

/-- A policy that keeps tasks on a queue of its own, and gives up when a processor asks for one. -/
def quitter : Policy Unit where
  name := "quitter"
  init := do
    let _ ← .create 5
    return 0
  selectCpu _ previous _ := .done previous
  enqueue task _ := .place task.pid 5 1000
  dispatch _ _ := .giveUp "no"
  enable task := .done task

theorem quitter_tasks_migrate :
    let ops : List (Operation Unit) := [.install quitter, .addTask { pid := 2 }, .addTask { pid := 1 },
      .wake 2 0, .wake 1 0]
    let c := (new 1 ()).steps ops
    (c.migrants = [2, 1] ∧ c.Migrates c.uninstall.2) ∧
      ∃ i ∈ c.inquiries (.pickNext 0), i.failure = some (.policy "no") ∧ i.reached.migrants = [2, 1] ∧
        i.reached.Migrates i.after := by
  intro ops c
  obtain ⟨removed, fails⟩ := tasks_migrate_when_policy_goes 1 () ops
  let i : Inquiry Unit := ⟨c, quitter, .dispatch 0 none⟩
  have asked : i ∈ c.inquiries (.pickNext 0) := List.mem_singleton_self _
  have failed : i.failure = some (.policy "no") := rfl
  exact ⟨⟨by decide, (removed (by decide)).2⟩, i, asked, failed, by decide,
    (fails (.pickNext 0) i asked (by rw [failed]; nofun)).2⟩

end SchedClass

end LoadableSched
