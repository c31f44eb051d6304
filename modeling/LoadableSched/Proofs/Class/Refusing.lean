import LoadableSched.Proofs.Class.Contents
import LoadableSched.Proofs.Class.Tenure

/-!
What a refused installation leaves behind. Nothing is rolled back: what the first callback moved stays
where it is, so do the placements that were made before the one that could not be, and only the queues
of the policy are emptied into the global one. All else is as before.
-/

namespace LoadableSched.SchedClass

variable {ω : Type} {c : SchedClass ω}

def asked (c : SchedClass ω) (policy : Policy ω) : List Placement :=
  let ran := c.invoke 0 policy.init
  if ran.1 = 0 ∧ ran.2.error = none then ran.2.placements else []

def moved (c : SchedClass ω) (policy : Policy ω) : List (QueueId × Pid) :=
  policy.init.moves 0 c.clock ⟨c.queues, [], none, c.memory⟩

/-- The first callback refuses or is a misuse, or one of its placements cannot be made. -/
def Refuses (c : SchedClass ω) (policy : Policy ω) : Prop :=
  (c.invoke 0 policy.init).1 ≠ 0 ∨ (c.invoke 0 policy.init).2.error ≠ none ∨
    c.placeable [] (c.asked policy) ≠ c.asked policy

/-- Where the tasks are once some were moved to the first processor and some placements were made: the
tasks placed wait, those on queues of the policy behind the others on the global queue. -/
structure Strands (c : SchedClass ω) (moved : List (QueueId × Pid)) (made : List Placement)
    (d : SchedClass ω) : Prop where
  states : ∀ pid, d.state? pid = if pid ∈ made.map (·.pid) then some .queued else c.state? pid
  own : ∀ cpu, d.queues.ownLine cpu = c.queues.ownLine cpu ++
    if cpu = 0 then moved.map (·.2) ++ (made.filter (·.queue = localQueue)).map (·.pid) else []
  global : ∃ (rest : List Pid) (numbers : List QueueId),
    c.queues.line globalQueue = (moved.filter (·.1 = globalQueue)).map (·.2) ++ rest ∧
    d.queues.line globalQueue = rest ++ (made.filter (·.queue = globalQueue)).map (·.pid) ++
      numbers.flatMap (fun number => (made.filter (·.queue = number)).map (·.pid)) ∧
    numbers.Pairwise (· < ·) ∧ (∀ number ∈ numbers, isBuiltin number = false) ∧
    ∀ p ∈ made, isBuiltin p.queue = false → p.queue ∈ numbers

theorem introduce_eq (c : SchedClass ω) (policy : Policy ω) :
    let ran := c.invoke 0 policy.init
    let tried := (c.resume ran.2).place 0 [] (c.asked policy)
    (introduce c policy).2 = tried.2 ∧
      ((∃ e, (introduce c policy).1 = .error e) ↔
        ran.1 ≠ 0 ∨ ran.2.error ≠ none ∨ ¬ ∃ all, tried.1 = .ok all) := by
  unfold introduce call asked
  dsimp only
  cases error : (c.invoke 0 policy.init).2.error with
  | some e => simp [place]
  | none =>
    by_cases zero : (c.invoke 0 policy.init).1 = 0
    · simp only [zero, ne_eq, not_true, if_false, and_self, if_true, false_or]
      generalize (c.resume (c.invoke 0 policy.init).2).place 0 [] _ = tried
      obtain ⟨_ | all, d⟩ := tried <;> simp
    · simp [zero, place]

theorem asked_known (c : SchedClass ω) (policy : Policy ω) :
    ∀ p ∈ c.asked policy, (c.invoke 0 policy.init).2.queues.has p.queue = true := by
  have all : (c.invoke 0 policy.init).2.Known :=
    Callback.run_known 0 c.clock policy.init (p := ⟨c.queues, [], none, c.memory⟩) (by simp [Progress.Known])
  intro p member
  simp only [asked] at member
  split at member
  · exact all p member
  · exact absurd member List.not_mem_nil

section

variable (agrees : c.Agrees []) (processor : 0 < c.cpus)

include agrees processor

theorem introduce_puts (policy : Policy ω) :
    Puts 0 (c.resume (c.invoke 0 policy.init).2) (c.placeable [] (c.asked policy))
      (introduce c policy).2 ∧
    ((∃ e, (introduce c policy).1 = .error e) ↔ c.Refuses policy) := by
  have moved : c.queues.Shifts (c.invoke 0 policy.init).2.queues [] [] :=
    Callback.run_shifts 0 c.clock policy.init (p := ⟨c.queues, [], none, c.memory⟩) agrees.queues
  have after : (c.resume (c.invoke 0 policy.init).2).Agrees [] := agrees.of_shifts moved _
  obtain ⟨puts, iff⟩ := place_puts after (Nat.lt_of_lt_of_eq processor moved.cpus.symm)
    (c.asked_known policy) []
  have same : (c.resume (c.invoke 0 policy.init).2).placeable [] (c.asked policy) =
      c.placeable [] (c.asked policy) :=
    placeable_congr (c := c) (d := c.resume _) (fun _ => rfl) (fun _ _ => moved.waiting_perm.mem_iff) _
  obtain ⟨state, result⟩ := c.introduce_eq policy
  rw [state, result, iff, same]
  exact ⟨same ▸ puts, .rfl⟩

/-- The queues of a policy are new, so that what stands on them was placed there. -/
theorem refused_strands (only : c.queues.OnlyBuiltin) (policy : Policy ω) :
    Strands c (c.moved policy) (c.placeable [] (c.asked policy))
      (requeueOrphans { (introduce c policy).2 with policy := none }) := by
  obtain ⟨puts, _⟩ := introduce_puts agrees processor policy
  have places := introduce_places agrees policy
  have flows := Callback.run_flows 0 c.clock policy.init ⟨c.queues, [], none, c.memory⟩
  have between : ({ (introduce c policy).2 with policy := none } : SchedClass ω).Agrees [] :=
    (places.agrees agrees).congr rfl places.tasks fun _ => rfl
  obtain ⟨global, own⟩ := requeueOrphans_lines between
  have states := requeueOrphans_state? between
  obtain ⟨ascending, numbers⟩ := Queues.policyNumbers_spec between.queues
  refine ⟨fun pid => (states pid).trans (puts.states pid), fun cpu => ?_, ?_⟩
  · refine (own cpu).trans ((puts.own cpu).trans ?_)
    refine (congrArg (· ++ _) (flows.own cpu)).trans ?_
    by_cases first : cpu = 0 <;> simp [first, moved]
  · refine ⟨(c.invoke 0 policy.init).2.queues.line globalQueue, _, flows.lines globalQueue, ?_,
      ascending, fun number member => ((numbers number).mp member).2, ?_⟩
    · have line := fun queue => puts.lines queue
      have apart : globalQueue ≠ localQueue := by decide
      refine global.trans ?_
      refine congrArg₂ (· ++ ·) ((line globalQueue).trans (by simp [apart]; rfl)) ?_
      refine List.flatMap_congr fun number member => (line number).trans ?_
      -- A queue of the policy is new, so that nothing was on it before the placements.
      have foreign := ((numbers number).mp member).2
      have absent : c.queues.shared.contains number = false := by
        rw [← Bool.not_eq_true]
        intro present
        rw [only number present] at foreign
        cases foreign
      have empty : (c.invoke 0 policy.init).2.queues.line number = [] := by
        have whole := flows.lines number
        rw [Queues.line_of_absent absent] at whole
        exact (List.append_eq_nil_iff.mp whole.symm).2
      have other : number ≠ localQueue := by
        rintro rfl
        exact absurd foreign (by decide)
      simp [resume, empty, other]
    · intro p member foreign
      have there := c.asked_known policy p (mem_of_placeable member)
      have other : p.queue ≠ localQueue := by
        intro own
        rw [own] at foreign
        exact absurd foreign (by decide)
      simp only [Queues.has, other, decide_false, Bool.false_or] at there
      exact (numbers p.queue).mpr ⟨puts.covers p.queue there, foreign⟩

end

theorem Strands.still {d : SchedClass ω} (h : c.Strands [] [] d) :
    (∀ pid, d.state? pid = c.state? pid) ∧
      (∀ cpu, d.queues.ownLine cpu = c.queues.ownLine cpu) ∧
      d.queues.line globalQueue = c.queues.line globalQueue := by
  obtain ⟨rest, numbers, before, after, _⟩ := h.global
  refine ⟨by simpa using h.states, by simpa using h.own, ?_⟩
  rw [before, after]
  simp

theorem install_refused (agrees : c.Agrees []) (vacant : c.Vacant) (processor : 0 < c.cpus)
    (free : c.policy = none) (policy : Policy ω) :
    ((∃ e, (c.install policy).1 = .error e) ↔ c.Refuses policy) ∧
    (c.Refuses policy → (c.install policy).2.policy = none ∧ (c.install policy).2.queues.OnlyBuiltin ∧
      (c.install policy).2.current = c.current ∧ (c.install policy).2.previous = c.previous ∧
      (c.install policy).2.exit = c.exit ∧ (c.install policy).2.clock = c.clock ∧
      c.Strands (c.moved policy) (c.placeable [] (c.asked policy)) (c.install policy).2) := by
  -- The policy is in place while its first callback runs, which does not look at that.
  let e : SchedClass ω := { c with policy := some policy }
  have same : e.Agrees [] := agrees.congr rfl agrees.tasks fun _ => rfl
  have only : e.queues.OnlyBuiltin := vacant free
  have placeable : e.placeable [] (c.asked policy) = c.placeable [] (c.asked policy) :=
    placeable_congr (c := c) (d := e) (fun _ => rfl) (fun _ _ => .rfl) _
  have refuses : (∃ reason, (e.introduce policy).1 = .error reason) ↔ c.Refuses policy := by
    rw [Refuses, ← placeable]
    exact (introduce_puts same processor policy).2
  have strands : c.Strands (c.moved policy) (c.placeable [] (c.asked policy))
      (requeueOrphans { (e.introduce policy).2 with policy := none }) := by
    rw [← placeable]
    obtain ⟨states, own, global⟩ := refused_strands same processor only policy
    exact ⟨states, own, global⟩
  have places := introduce_places same policy
  have between : ({ (introduce e policy).2 with policy := none } : SchedClass ω).Agrees [] :=
    (places.agrees same).congr rfl places.tasks fun _ => rfl
  obtain ⟨active, busy, _⟩ | ⟨_, reason, d, refused, made, _⟩ | ⟨_, d, entered, made, _⟩ :=
    c.install_cases policy
  · rw [free] at busy
    cases busy
  · have outcome : e.introduce policy = (.error reason, d) := refused
    rw [outcome] at refuses strands places between
    rw [made]
    refine ⟨iff_of_true ⟨reason, rfl⟩ (refuses.mp ⟨reason, rfl⟩), fun _ => ?_⟩
    have follows := requeueOrphans_follows between
    exact ⟨requeueOrphans_policy between, requeueOrphans_onlyBuiltin _,
      follows.current.trans places.current, follows.previous.trans places.previous,
      (requeueOrphans_exit between).trans places.exit,
      (requeueOrphans_places between).1.clock.trans places.clock, strands⟩
  · have outcome : e.introduce policy = (.ok (), d) := entered
    rw [outcome] at refuses
    have accepts : ¬ c.Refuses policy := fun no => by simpa using refuses.mpr no
    rw [made]
    exact ⟨iff_of_false (by simp) accepts, fun no => absurd no accepts⟩

/-- Whatever a policy does in its first callback: it is reported as refused exactly if that callback
refuses, is a misuse or asks for a placement that cannot be made. Then no policy and no queue of one is
left and no processor notices, but the tasks that were moved or placed stay moved or placed, unless some
processor runs one of them. A policy that comes while there is one is sent away and changes nothing. -/
theorem refused_policy_strands_tasks (cpus : Nat) (memory : ω) (ops : List (Operation ω))
    (policy : Policy ω) :
    let c := (new cpus memory).steps ops
    let d := (c.install policy).2
    let moved := c.moved policy
    let made := c.placeable [] (c.asked policy)
    (∀ active, c.policy = some active → c.install policy = (.error (.busy active.name), c)) ∧
    (c.policy = none →
      ((∃ e, (c.install policy).1 = .error e) ↔ c.Refuses policy) ∧
      (c.Refuses policy →
        d.policy = none ∧ d.queues.OnlyBuiltin ∧
        d.current = c.current ∧ d.previous = c.previous ∧ d.exit = c.exit ∧ d.clock = c.clock ∧
        ((∀ p ∈ made, ∀ cpu, c.state? p.pid ≠ some (.running cpu)) → c.Strands moved made d) ∧
        (moved = [] → made = [] → (∀ pid, d.state? pid = c.state? pid) ∧
          (∀ cpu, d.queues.ownLine cpu = c.queues.ownLine cpu) ∧
          d.queues.line globalQueue = c.queues.line globalQueue))) := by
  intro c d moved made
  refine ⟨fun active busy => install_busy busy, fun free => ?_⟩
  obtain ⟨agrees, backed, _⟩ := new_agrees cpus memory
  have processor : 0 < c.cpus :=
    (steps_cpus agrees backed ops).symm ▸ (new_healthy cpus memory).positive
  have vacant : c.Vacant := steps_vacant (new_vacant cpus memory) ops
  obtain ⟨iff, refused⟩ :=
    install_refused (steps_agree agrees backed ops).1 vacant processor free policy
  refine ⟨iff, fun no => ?_⟩
  obtain ⟨gone, cleared, current, previous, exit, clock, strands⟩ := refused no
  refine ⟨gone, cleared, current, previous, exit, clock, fun _ => strands, ?_⟩
  intro unmoved unplaced
  have strands : c.Strands moved made d := strands
  rw [unmoved, unplaced] at strands
  exact strands.still

/-- A policy that takes a task off the global queue and places another one there before it asks for a
task that nobody knows. -/
def meddler : Policy Unit where
  name := "meddler"
  init := do
    let _ ← Callback.take globalQueue
    .place 2 globalQueue 1000
    .place 9 globalQueue 1000
    return 0
  selectCpu _ previous _ := .done previous
  enqueue task _ := .place task.pid globalQueue 1000
  dispatch _ _ := .done ()

theorem meddler_leaves_traces :
    let c := (new 1 ()).steps [.addTask { pid := 1 }, .addTask { pid := 2 }, .enqueue 1 0]
    let d := (c.install meddler).2
    c.policy.isNone ∧ (c.install meddler).1 = .error (.unknownTask 9) ∧
    (c.queues.line globalQueue, c.queues.ownLine 0, c.state? 2) = ([1], [], some .sleeping) ∧
    (d.queues.line globalQueue, d.queues.ownLine 0, d.state? 2) = ([2], [1], some .queued) :=
  ⟨rfl, rfl, rfl, rfl⟩

end LoadableSched.SchedClass
