import LoadableSched.Proofs.Class.Dispatching

/-!
Whether the processors and the tasks tell the same story about what runs. They do until a callback puts
a task on a queue that some processor runs at that time: the class places any registered task that is
on no queue, and the processor keeps the task as its current one.
-/

namespace LoadableSched.SchedClass

variable {ω : Type} {c : SchedClass ω}

/-- What a processor has as its current task is what runs on it: no task is current on two processors,
on a queue at the same time, or unregistered. -/
structure Exclusive (c : SchedClass ω) : Prop where
  current_iff : ∀ cpu pid, c.current? cpu = some pid ↔ c.state? pid = some (.running cpu)
  apart : ∀ cpu other pid, c.current? cpu = some pid → c.current? other = some pid → cpu = other
  off_queues : ∀ cpu pid, c.current? cpu = some pid → pid ∉ c.queues.waiting
  registered : ∀ cpu pid, c.current? cpu = some pid → c.tasks.contains pid = true

theorem exclusive_iff_held (agrees : c.Agrees []) (backed : c.Backed []) : c.Exclusive ↔ c.Held := by
  refine ⟨fun exclusive cpu pid => (exclusive.current_iff cpu pid).mp, fun held => ⟨?_, ?_, ?_, ?_⟩⟩
  · intro cpu pid
    exact ⟨held cpu pid, fun runs => (backed.running pid cpu runs).resolve_right List.not_mem_nil⟩
  · intro cpu other pid here there
    have runs := (held cpu pid here).symm.trans (held other pid there)
    cases runs
    rfl
  · intro cpu pid here
    exact not_waiting_of_state? agrees (held cpu pid here) (by simp)
  · intro cpu pid here
    exact contains_of_state? (held cpu pid here)

/-- The first callback that displaces a current task is the end of it. -/
theorem held_throughout_iff (agrees : c.Agrees []) (backed : c.Backed []) (held : c.Held)
    (ops : List (Operation ω)) :
    (∀ early, early <+: ops → (c.steps early).Held) ↔
      ∀ i ∈ c.allInquiries ops, ¬ i.call.Displaces := by
  induction ops generalizing c with
  | nil =>
    refine iff_of_true ?_ fun _ member => absurd member List.not_mem_nil
    intro early isPrefix
    rw [List.prefix_nil.mp isPrefix]
    exact held
  | cons op rest ih =>
    have carries := step_carries agrees backed op
    simp only [allInquiries, List.forall_mem_append, ← carries.held held]
    constructor
    · intro all
      have first : (c.step op).Held := all [op] (by simp)
      refine ⟨first, (ih carries.agrees carries.backed first).mp ?_⟩
      intro early isPrefix
      exact all (op :: early) (List.cons_prefix_cons.mpr ⟨rfl, isPrefix⟩)
    · rintro ⟨first, later⟩ early isPrefix
      rcases List.prefix_cons_iff.mp isPrefix with none | ⟨others, same, isPrefix⟩
      · rw [none]
        exact held
      · rw [same]
        exact (ih carries.agrees carries.backed first).mpr later others isPrefix

/-- A running task is always the current one of its processor. The rest holds after each operation of a
run if and only if no callback of the run puts a task on a queue that a processor runs. -/
theorem exclusive_iff_no_displacement (cpus : Nat) (memory : ω) (ops : List (Operation ω)) :
    (∀ pid cpu, ((new cpus memory).steps ops).state? pid = some (.running cpu) →
      ((new cpus memory).steps ops).current? cpu = some pid) ∧
    ((∀ early, early <+: ops → ((new cpus memory).steps early).Exclusive) ↔
      ∀ call ∈ (new cpus memory).allCalls ops, ¬ call.Displaces) := by
  obtain ⟨agrees, backed, held⟩ := new_agrees cpus memory
  refine ⟨?_, ?_⟩
  · intro pid cpu runs
    have supported := (steps_agree agrees backed ops).2
    exact (supported.running pid cpu runs).resolve_right List.not_mem_nil
  · rw [allCalls, List.forall_mem_map, ← held_throughout_iff agrees backed held ops]
    refine forall_congr' fun early => imp_congr_right fun _ => ?_
    obtain ⟨agrees, backed⟩ := steps_agree agrees backed early
    exact exclusive_iff_held agrees backed

/-- A policy that queues a task again as soon as it runs. -/
def eager : Policy Unit where
  name := "eager"
  init := .done 0
  selectCpu _ previous _ := .done previous
  enqueue task _ := .place task.pid globalQueue 1000
  dispatch _ _ := .done ()
  running task := .place task.pid globalQueue 1000

/-- A task that was displaced stays the current one of its processor even after it was forgotten. -/
theorem displaced_task_stays_current :
    let c := (new 2 ()).steps
      [.install eager, .addTask { pid := 1 }, .wake 1 0, .pickNext 0, .removeTask 1]
    c.current? 0 = some 1 ∧ c.state? 1 = none ∧ ¬ c.Exclusive := by
  refine ⟨rfl, rfl, fun exclusive => ?_⟩
  have registered := exclusive.registered 0 1 rfl
  exact absurd registered (by decide)

end LoadableSched.SchedClass
