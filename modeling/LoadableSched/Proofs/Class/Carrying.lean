import LoadableSched.Proofs.Class.Serving

/-!
What an operation keeps, whatever the policy: the queues agree with the states of the tasks, and a
running task is the current one of its processor. The converse, that a current task runs there, is kept
exactly as long as no callback puts a current task on a queue.
-/

namespace LoadableSched.SchedClass

variable {ω : Type} {c d e : SchedClass ω} {loose : List Pid} {xs : List (Inquiry ω)}

/-- Every running task is the current one of its processor, but for those that are leaving one. -/
structure Backed (c : SchedClass ω) (leaving : List (Pid × CpuId)) : Prop where
  processors : c.current.length = c.cpus
  running : ∀ pid cpu, c.state? pid = some (.running cpu) →
    c.current? cpu = some pid ∨ (pid, cpu) ∈ leaving

def Held (c : SchedClass ω) : Prop :=
  ∀ cpu pid, c.current? cpu = some pid → c.state? pid = some (.running cpu)

/-- What an operation with these callbacks makes of a class. -/
structure Carries (c : SchedClass ω) (is : List (Inquiry ω)) (d : SchedClass ω) : Prop where
  cpus : d.cpus = c.cpus
  agrees : d.Agrees []
  backed : d.Backed []
  held : c.Held → (d.Held ↔ ∀ i ∈ is, ¬ i.call.Displaces)

/-! Callbacks. -/

namespace Serves

theorem current? (h : c.Serves xs d) (cpu : CpuId) : d.current? cpu = c.current? cpu := by
  simp only [SchedClass.current?, h.current]

theorem running (h : c.Serves xs d) {pid : Pid} {cpu : CpuId}
    (runs : d.state? pid = some (.running cpu)) : c.state? pid = some (.running cpu) := by
  rcases h.settled pid with same | ⟨queued, _⟩
  · exact same.symm.trans runs
  · rw [queued] at runs
    cases runs

theorem backed {leaving : List (Pid × CpuId)} (h : c.Serves xs d) (backed : c.Backed leaving) :
    d.Backed leaving where
  processors := by rw [h.current, h.cpus, backed.processors]
  running pid cpu runs := by
    rw [h.current?]
    exact backed.running pid cpu (h.running runs)

/-- A current task is kept on its processor by all that happens but a callback that displaces it; no
later callback makes up for it. -/
theorem held_iff (h : c.Serves xs d) :
    d.Held ↔ c.Held ∧ ∀ i ∈ xs, ¬ i.call.Displaces := by
  constructor
  · intro held
    refine ⟨fun cpu pid here => h.running (held cpu pid ((h.current? cpu).trans here)), ?_⟩
    rintro i member ⟨cpu, pid, here, put⟩
    have there : i.before.current? cpu = some pid := here
    have current : d.current? cpu = some pid := by
      rw [h.current?, ← there]
      simp only [SchedClass.current?, h.before i member]
    have runs := held cpu pid current
    rw [h.puts i member pid put] at runs
    cases runs
  · rintro ⟨held, none⟩ cpu pid here
    rw [h.current?] at here
    rcases h.settled pid with same | ⟨_, i, member, put⟩
    · exact same.trans (held cpu pid here)
    · have there : i.before.current? cpu = some pid := by
        rw [← here]
        simp only [SchedClass.current?, h.before i member]
      exact absurd ⟨cpu, pid, there, put⟩ (none i member)

theorem carries (h : c.Serves xs d) (agrees : d.Agrees []) (backed : c.Backed []) : c.Carries xs d :=
  ⟨h.cpus, agrees, h.backed backed, fun held => by rw [h.held_iff, and_iff_right held]⟩

end Serves

theorem Carries.after (h : d.Carries xs e) (cpus : d.cpus = c.cpus) (held : c.Held → d.Held) :
    c.Carries xs e :=
  ⟨h.cpus.trans cpus, h.agrees, h.backed, fun before => h.held (held before)⟩

/-! Changes of one task or of one processor. -/

theorem current?_set (c : SchedClass ω) (cpu : CpuId) (value : Option Pid) (other : CpuId) :
    (c.current.set cpu value)[other]?.join =
      if other = cpu then (if cpu < c.current.length then value else none) else c.current? other := by
  rw [List.getElem?_set, current?]
  by_cases same : cpu = other
  · subst same
    simp only [if_true]
    split <;> rfl
  · rw [if_neg same, if_neg (Ne.symm same)]

theorem Backed.free_beyond {leaving : List (Pid × CpuId)} (backed : c.Backed leaving) {cpu : CpuId}
    (beyond : c.cpus ≤ cpu) : c.current? cpu = none := by
  rw [current?, List.getElem?_eq_none (Nat.le_trans (Nat.le_of_eq backed.processors) beyond)]
  rfl

theorem Backed.known {leaving : List (Pid × CpuId)} (backed : c.Backed leaving) {cpu : CpuId} {pid : Pid}
    (here : c.current? cpu = some pid) : cpu < c.cpus := by
  by_contra beyond
  rw [backed.free_beyond (Nat.le_of_not_lt beyond)] at here
  cases here

theorem Backed.tighten {pid : Pid} {cpu : CpuId} (backed : c.Backed [(pid, cpu)])
    (left : c.state? pid ≠ some (.running cpu)) : c.Backed [] where
  processors := backed.processors
  running other place runs := by
    rcases backed.running other place runs with here | leaving
    · exact .inl here
    · cases List.mem_singleton.mp leaving
      exact absurd runs left

theorem setState_backed {leaving : List (Pid × CpuId)} (backed : c.Backed leaving) (pid : Pid)
    (state : RunState) (rests : ∀ cpu, state ≠ .running cpu) :
    (c.setState pid state).Backed leaving where
  processors := backed.processors
  running other cpu runs := by
    rw [state?_setState] at runs
    split at runs
    · obtain ⟨_, _, same⟩ := Option.map_eq_some_iff.mp runs
      exact absurd same (rests cpu)
    · exact backed.running other cpu runs

theorem setState_held (pid : Pid) (state : RunState) (rests : ∀ cpu, state ≠ .running cpu)
    (free : c.Held → ∀ cpu, c.current? cpu ≠ some pid) : (c.setState pid state).Held ↔ c.Held := by
  constructor
  · intro held cpu other here
    have runs := held cpu other here
    rw [state?_setState] at runs
    split at runs
    · obtain ⟨_, _, same⟩ := Option.map_eq_some_iff.mp runs
      exact absurd same (rests cpu)
    · exact runs
  · intro held cpu other here
    have apart : other ≠ pid := fun same => free held cpu (same ▸ here)
    rw [state?_setState, if_neg apart]
    exact held cpu other here

theorem Held.free (held : c.Held) {pid : Pid} {state : RunState} (found : c.state? pid = some state)
    (rests : ∀ cpu, state ≠ .running cpu) (cpu : CpuId) : c.current? cpu ≠ some pid := by
  intro here
  have runs := held cpu pid here
  rw [found] at runs
  exact rests cpu (Option.some.inj runs)

theorem Held.on_one (held : c.Held) {pid : Pid} {cpu other : CpuId} (here : c.current? cpu = some pid)
    (there : c.current? other = some pid) : cpu = other := by
  have runs := (held cpu pid here).symm.trans (held other pid there)
  exact RunState.running.inj (Option.some.inj runs)

theorem Held.free_of_vacant (held : c.Held) {pid : Pid} {cpu : CpuId}
    (runs : c.state? pid = some (.running cpu)) (vacant : c.current? cpu = none) (place : CpuId) :
    c.current? place ≠ some pid := by
  intro here
  have there := held place pid here
  rw [runs] at there
  cases there
  rw [vacant] at here
  cases here

theorem not_waiting_of_state? (agrees : c.Agrees loose) {pid : Pid} {state : RunState}
    (found : c.state? pid = some state) (other : state ≠ .queued) : pid ∉ c.queues.waiting := by
  intro waits
  rw [agrees.queued pid waits] at found
  exact other (Option.some.inj found).symm

theorem setState_agrees (agrees : c.Agrees []) {pid : Pid} (absent : pid ∉ c.queues.waiting)
    {state : RunState} (other : state ≠ .queued) : (c.setState pid state).Agrees [] where
  queues := agrees.queues
  tasks := agrees.tasks.modify _ _
  distinct := agrees.distinct
  queued task waits := by
    have apart : task ≠ pid := fun same => absent (same ▸ waits)
    rw [state?_setState, if_neg apart]
    exact agrees.queued task waits
  waits task queued := by
    rw [state?_setState] at queued
    split at queued
    · obtain ⟨_, _, same⟩ := Option.map_eq_some_iff.mp queued
      exact absurd same other
    · exact agrees.waits task queued

end LoadableSched.SchedClass
