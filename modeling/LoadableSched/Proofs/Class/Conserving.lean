import LoadableSched.Proofs.Class.Driving
import LoadableSched.Proofs.Class.InOrder
import LoadableSched.Proofs.Class.Tenure
import LoadableSched.Proofs.Policy.Draining

/-!
No processor idles while a task waits that it could run, whatever policies there were before: a policy
leaves no queue behind, and a processor without tasks looks into each queue that there is.
-/

namespace LoadableSched.SchedClass

variable {ω : Type} {c d : SchedClass ω} {policy : Policy ω} {order : List QueueId}

/-! The queues that there are while a policy stays. -/

theorem place_sameNumbers (c : SchedClass ω) (cpu : CpuId) (placed : List Pid)
    (placements : List Placement) :
    c.queues.SameNumbers (c.place cpu placed placements).2.queues := by
  apply place_closure (R := fun c d => c.queues.SameNumbers d.queues)
  · exact fun c => .refl c.queues
  · exact Queues.SameNumbers.trans
  · intro c d _ _ _ made
    obtain ⟨_, _, _, r, pushed, rfl⟩ := placeOne_inv made
    exact Queues.push_sameNumbers pushed

theorem Inquiry.reached_numbers (i : Inquiry ω) : i.called.queues.SameNumbers i.reached.queues := by
  unfold reached
  cases i.heeded with
  | flawed reason first heeds => rw [heeds]; exact .refl _
  | placed proper accepted other heeds => rw [heeds]; exact place_sameNumbers _ _ _ _
  | enabled proper accepted enables pid record heeds => rw [heeds]; exact .refl _

namespace Leads

variable {is : List (Inquiry ω)}

theorem numbers (leads : c.Leads is d) (drains : policy.Drains order) (active : d.policy = some policy) :
    c.queues.SameNumbers d.queues := by
  induction leads with
  | still tends => exact tends.numbers
  | @asks c d i rest tends there later leads ih =>
    have stays : d.policy ≠ none := by rw [active]; exact Option.some_ne_none _
    have kept := (leads.fine stays).1
    have well : i.failure = none := Inquiry.fine_of_stays there fun gone => stays (kept.trans gone)
    have same : i.policy = policy := by
      rw [i.after_fine well, i.reached_retains.policy, there, active] at kept
      exact (Option.some.inj kept).symm
    have called : i.before.queues.SameNumbers i.called.queues := by
      have creates := drains.creates i.matter later
      rw [← same] at creates
      exact creates.numbers i.matter.cpu i.before.clock ⟨i.before.queues, [], none, i.before.memory⟩
    have settled : i.before.queues.SameNumbers i.after.queues := by
      rw [i.after_fine well]
      exact called.trans i.reached_numbers
    exact (tends.numbers.trans settled).trans (ih active)

end Leads

theorem Steady.fine (steady : c.Steady) (active : c.policy = some policy) {op : Operation ω}
    {i : Inquiry ω} (asked : i ∈ c.inquiries op) :
    i.policy = policy ∧ i.before.policy = some policy ∧ i.failure = none := by
  by_cases spares : op.SparesPolicy
  · have stays := (step_spares steady.agrees steady.backed steady.healthy spares).policy
    obtain ⟨before, fine⟩ := ((step_leads c spares).fine (by rw [stays, active]; exact Option.some_ne_none _)).2
      i asked
    have there := before.trans active
    exact ⟨Option.some.inj ((mem_inquiries asked).1.symm.trans there), there, fine⟩
  cases op with
  | install other => simp [inquiries, installInquiries, active] at asked
  | uninstall => exact absurd asked List.not_mem_nil
  | addTask | removeTask | wake | enqueue | pickNext | stop | advanceClock | setMemory =>
    exact absurd trivial spares

def Housed (c : SchedClass ω) : Prop :=
  ∀ policy order, c.policy = some policy → policy.Drains order →
    ∀ queue, isBuiltin queue = false → (c.queues.shared.contains queue = true ↔ queue ∈ order)

theorem Housed.of_leads {is : List (Inquiry ω)} (housed : c.Housed) (leads : c.Leads is d) :
    d.Housed := by
  intro policy order active drains queue own
  have stays : d.policy ≠ none := by rw [active]; exact Option.some_ne_none _
  rw [leads.numbers drains active queue]
  exact housed policy order ((leads.fine stays).1.symm.trans active) drains queue own

theorem install_housed (vacant : c.Vacant) (housed : c.Housed) (policy : Policy ω) :
    (c.step (.install policy)).Housed := by
  cases busy : c.policy with
  | some current =>
    have same : c.step (.install policy) = c := congrArg Prod.snd (install_busy busy)
    rwa [same]
  | none =>
    obtain ⟨rest, d, _, leads, ends⟩ := install_leads busy policy
    have entered : (Inquiry.after ⟨{ c with policy := some policy }, policy, .init⟩).Housed := by
      intro other order active drains queue own
      have well := Inquiry.fine_of_stays (i := ⟨{ c with policy := some policy }, policy, .init⟩) rfl
        (by rw [active]; exact Option.some_ne_none _)
      rw [Inquiry.after_fine well] at active ⊢
      cases (Inquiry.reached_retains ⟨{ c with policy := some policy }, policy, .init⟩).policy.symm.trans
        active
      rw [Inquiry.reached_numbers ⟨{ c with policy := some policy }, policy, .init⟩ queue]
      obtain ⟨_, _, stocks⟩ := drains.conforms.init c.clock c.queues c.memory (vacant busy)
      have only := drains.init c.clock c.queues c.memory (vacant busy) queue own
      simp only [Inquiry.called, Inquiry.ran, Policy.answer, Matter.cpu, invoke_map]
      exact ⟨only, fun member => stocks queue member⟩
    have led := entered.of_leads leads
    rcases ends with same | same <;> rw [same]
    · exact led
    · exact fun policy order active => led policy order active

theorem step_housed (vacant : c.Vacant) (housed : c.Housed) (op : Operation ω) : (c.step op).Housed := by
  cases op with
  | install policy => exact install_housed vacant housed policy
  | uninstall =>
    intro policy order active
    have gone := c.uninstall_policy
    rw [show c.uninstall.2.policy = some policy from active] at gone
    cases gone
  | addTask | removeTask | wake | enqueue | pickNext | stop | advanceClock | setMemory =>
    exact housed.of_leads (step_leads c (by trivial))

theorem steps_housed (vacant : c.Vacant) (housed : c.Housed) (ops : List (Operation ω)) :
    (c.steps ops).Housed := by
  induction ops generalizing c with
  | nil => exact housed
  | cons op rest ih => exact ih (step_vacant vacant op) (step_housed vacant housed op)

/-- Beside the class's own queues there are these alone, and the policy serves them in this order. -/
structure Served (c : SchedClass ω) (order : List QueueId) : Prop where
  drains : ∀ policy, c.policy = some policy → policy.Drains order
  vacant : c.policy = none → order = []
  numbers : ∀ queue, isBuiltin queue = false → (c.queues.shared.contains queue = true ↔ queue ∈ order)
  own : ∀ queue ∈ order, isBuiltin queue = false

theorem Served.of_housed (housed : c.Housed) (active : c.policy = some policy)
    (drains : policy.Drains order) : c.Served order where
  drains other there := by
    cases active.symm.trans there
    exact drains
  vacant none := by
    rw [active] at none
    cases none
  numbers := housed policy order active drains
  own := drains.own

theorem Served.of_vacant (vacant : c.Vacant) (free : c.policy = none) : c.Served [] where
  drains policy active := by
    rw [free] at active
    cases active
  vacant _ := rfl
  numbers queue own := by
    refine ⟨fun present => ?_, fun member => absurd member List.not_mem_nil⟩
    rw [vacant free queue present] at own
    cases own
  own _ member := absurd member List.not_mem_nil

namespace Served

variable (served : c.Served order)

include served

theorem stocks : c.queues.Stocks order := fun queue member =>
  (served.numbers queue (served.own queue member)).mpr member

theorem stocked : c.Stocked where
  vacant free queue present := by
    by_contra own
    have member := (served.numbers queue (by simpa using own)).mp present
    rw [served.vacant free] at member
    exact absurd member List.not_mem_nil
  conforms policy active := ⟨order, (served.drains policy active).conforms, served.stocks⟩

end Served

/-! What a processor takes. -/

/-- The task that a processor without one takes: the head of its own line, else of the first of these queues
that is not empty, else of the global queue. -/
def foremost (c : SchedClass ω) (order : List QueueId) (cpu : CpuId) : Option Pid :=
  (c.queues.ownLine cpu).head?.or
    (((c.queues.foremost order).map (·.2)).or (c.queues.line globalQueue).head?)

theorem refill_served (served : c.Served order) {cpu : CpuId}
    (known : cpu < c.cpus) :
    c.queues.ownLine cpu ≠ [] ∧ c.refill cpu = c ∨
    c.queues.ownLine cpu = [] ∧
      c.queues.Flows cpu (c.queues.foremost order).toList (c.refill cpu).queues := by
  by_cases some : c.queues.ownLine cpu = []
  · refine .inr ⟨some, ?_⟩
    unfold refill
    cases active : c.policy with
    | none =>
      rw [served.vacant active]
      exact .still (fun _ => rfl) fun _ => rfl
    | some policy =>
      have drains := served.drains policy active
      have asks := drains.conforms.dispatch cpu c.clock c.queues c.memory (c.previousWaiting cpu)
        served.stocks known
      have flows := drains.dispatch cpu c.clock c.queues c.memory (c.previousWaiting cpu) served.stocks known
      simp only [localLength_eq, some, List.length_nil, ne_eq, not_true_eq_false, if_false, consult,
        callAndPlace, call_eq asks, place]
      exact flows
  · refine .inl ⟨some, ?_⟩
    have busy : c.localLength cpu ≠ 0 := by
      rw [localLength_eq]
      exact fun nobody => some (List.length_eq_zero_iff.mp nobody)
    unfold refill
    simp only [if_pos busy]
    cases c.policy <;> rfl

theorem refill_shifts (agrees : c.Agrees []) (served : c.Served order) {cpu : CpuId}
    (known : cpu < c.cpus) : c.queues.Shifts (c.refill cpu).queues [] [] := by
  unfold refill
  cases active : c.policy with
  | none => exact .refl agrees.queues
  | some policy =>
    dsimp only
    split
    · exact .refl agrees.queues
    · have asks := (served.drains policy active).conforms.dispatch cpu c.clock c.queues c.memory
        (c.previousWaiting cpu) served.stocks known
      simp only [consult, callAndPlace, call_eq asks, place]
      exact Callback.run_shifts cpu c.clock (policy.dispatch cpu (c.previousWaiting cpu))
        (p := ⟨c.queues, [], none, c.memory⟩) agrees.queues

theorem takeNext_served (agrees : c.Agrees []) (served : c.Served order) {cpu : CpuId}
    (known : cpu < c.cpus) {next : Option Pid} {q : Queues}
    (made : (c.refill cpu).takeNext cpu = (.ok next, { c.refill cpu with queues := q })) :
    next = c.foremost order cpu ∧
      (∀ queue, c.queues.line queue = q.line queue ∨
        ∃ pid, next = some pid ∧ c.queues.line queue = pid :: q.line queue) ∧
      ∀ other, c.queues.ownLine other = q.ownLine other ∨
        ∃ pid, next = some pid ∧ c.queues.ownLine other = pid :: q.ownLine other := by
  obtain ⟨_, refilled⟩ := refill_serves agrees cpu
  obtain ⟨taken, lines, own⟩ := takeNext_lines refilled.queues made
  unfold foremost
  rcases refill_served served known with ⟨some, same⟩ | ⟨nobody, flows⟩
  · -- The processor has tasks of its own.
    rw [same] at taken lines own
    obtain ⟨pid, rest, standing⟩ := List.exists_cons_of_ne_nil some
    rw [standing] at taken ⊢
    refine ⟨taken, fun queue => .inl ?_, fun other => ?_⟩
    · rw [lines, if_neg (fun both => some both.1)]
    · rw [own]
      by_cases here : other = cpu
      · rw [if_pos here, here, standing]
        exact .inr ⟨pid, taken, rfl⟩
      · rw [if_neg here]
        exact .inl rfl
  · have moved := flows.own cpu
    rw [if_pos rfl, nobody, List.nil_append] at moved
    rw [moved] at taken lines
    cases first : c.queues.foremost order with
    | some entry =>
      -- The policy gives it the head of one of its queues.
      obtain ⟨home, pid⟩ := entry
      rw [first] at taken moved lines flows
      simp only [Option.toList_some, List.map_cons, List.map_nil, List.head?_cons, Option.some_or] at taken
      rw [nobody]
      refine ⟨taken, fun queue => ?_, fun other => .inl ?_⟩
      · rw [flows.lines queue, lines]
        by_cases here : home = queue
        · exact .inr ⟨pid, taken, by simp [here]⟩
        · exact .inl (by simp [here])
      · rw [own, flows.own other]
        by_cases here : other = cpu
        · simp [here, nobody]
        · simp [here]
    | none =>
      -- Only the global queue is left.
      rw [first] at taken moved lines flows
      have before : ∀ queue, c.queues.line queue = (c.refill cpu).queues.line queue := by
        intro queue
        simpa using flows.lines queue
      simp only [Option.toList_none, List.map_nil, List.head?_nil, Option.none_or, true_and] at taken lines
      rw [nobody, before globalQueue]
      refine ⟨taken, fun queue => ?_, fun other => .inl ?_⟩
      · rw [before queue, lines]
        by_cases here : queue = globalQueue
        · rw [if_pos here, here]
          cases standing : (c.refill cpu).queues.line globalQueue with
          | nil => exact .inl rfl
          | cons pid rest => exact .inr ⟨pid, by rw [taken, standing]; rfl, rfl⟩
        · rw [if_neg here]
          exact .inl rfl
      · rw [own, flows.own other]
        by_cases here : other = cpu
        · simp [here, nobody]
        · simp [here]

theorem start_queues (drains : ∀ policy, c.policy = some policy → policy.Drains order)
    (stocks : c.queues.Stocks order) (cpu : CpuId) (task : Task) :
    (c.start cpu task).queues = c.queues := by
  unfold start
  cases active : c.policy with
  | none => rfl
  | some policy =>
    have served := drains policy active
    have asks := served.conforms.running cpu c.clock c.queues c.memory task stocks
    simp only [consult, callAndPlace, call_eq asks, place]
    exact served.running cpu c.clock c.queues c.memory task

theorem run_served {cpu : CpuId} {pid : Pid} (agrees : c.Agrees [pid]) (stocked : c.Stocked)
    (drains : ∀ policy, c.policy = some policy → policy.Drains order) (stocks : c.queues.Stocks order)
    (queued : c.state? pid = some .queued) (absent : pid ∉ c.queues.waiting)
    (free : c.current? cpu = none) (known : cpu < c.cpus) (backed : c.Backed []) :
    (c.run cpu pid).1 = .ok (some pid) ∧ (c.run cpu pid).2.current? cpu = some pid ∧
      (c.run cpu pid).2.queues = c.queues.setIdle cpu false := by
  obtain ⟨runs, result⟩ := run_keeps agrees stocked queued absent free known backed
  have there : cpu < c.current.length := Nat.lt_of_lt_of_eq known backed.processors.symm
  refine ⟨result, ?_, ?_⟩
  · rw [runs.current?, current?_engage there, if_pos rfl]
  · obtain ⟨slot, found, _⟩ := Option.map_eq_some_iff.mp queued
    have found : (c.occupy cpu pid).tasks.get? pid = some slot := found
    unfold run
    simp only [found]
    exact start_queues (c := (c.occupy cpu pid).engage cpu pid) drains stocks cpu _

/-- From `c` to `d` these tasks, one at most, stopped waiting, and no other task left a line. -/
structure Sheds (c : SchedClass ω) (next : Option Pid) (d : SchedClass ω) : Prop where
  waiting : c.queues.waiting.Perm (next.toList ++ d.queues.waiting)
  lines : ∀ queue, d.queues.line queue = (c.queues.line queue).diff next.toList
  own : ∀ cpu, d.queues.ownLine cpu = (c.queues.ownLine cpu).diff next.toList

theorem Sheds.of_heads {next : Option Pid} (distinct : c.queues.waiting.Nodup)
    (waiting : c.queues.waiting.Perm (next.toList ++ d.queues.waiting))
    (lines : ∀ queue, c.queues.line queue = d.queues.line queue ∨
      ∃ pid, next = some pid ∧ c.queues.line queue = pid :: d.queues.line queue)
    (own : ∀ cpu, c.queues.ownLine cpu = d.queues.ownLine cpu ∨
      ∃ pid, next = some pid ∧ c.queues.ownLine cpu = pid :: d.queues.ownLine cpu) :
    c.Sheds next d := by
  have absent : ∀ pid, next = some pid → pid ∉ d.queues.waiting := by
    rintro pid rfl
    exact (List.nodup_cons.mp (waiting.nodup_iff.mp distinct)).1
  have shed : ∀ {before after : List Pid}, (∀ pid ∈ after, pid ∈ d.queues.waiting) →
      (before = after ∨ ∃ pid, next = some pid ∧ before = pid :: after) →
      after = before.diff next.toList := by
    rintro before after waits (rfl | ⟨pid, taken, rfl⟩)
    · cases next with
      | none => rfl
      | some pid =>
        have gone : pid ∉ before := fun here => absent pid rfl (waits pid here)
        simp [List.diff_cons, List.erase_of_not_mem gone]
    · rw [taken]
      simp [List.diff_cons]
  refine ⟨waiting, fun queue => shed ?_ (lines queue), fun cpu => shed ?_ (own cpu)⟩
  · exact fun pid member => List.mem_append_left _ (Queues.mem_waiting_of_line member)
  · exact fun pid member => List.mem_append_right _ (Queues.mem_waiting_of_ownLine member)

/-- A processor without a task finds the first that it may run, and no other task leaves its line. -/
theorem pickNext_served (agrees : c.Agrees []) (backed : c.Backed []) (served : c.Served order)
    {cpu : CpuId} (known : cpu < c.cpus) (free : c.current? cpu = none) :
    (c.pickNext cpu).1 = .ok (c.foremost order cpu) ∧
      (c.pickNext cpu).2.current? cpu = c.foremost order cpu ∧
      c.Sheds (c.foremost order cpu) (c.pickNext cpu).2 := by
  have refilled := refill_keeps agrees served.stocked known
  obtain ⟨serves, between⟩ := refill_serves agrees cpu
  obtain ⟨next, q, made, moved, numbers⟩ := takeNext_eq between.queues cpu
  obtain ⟨first, lines, own⟩ := takeNext_served agrees served known made
  have still : (c.refill cpu).queues.waiting.Perm c.queues.waiting :=
    (refill_shifts agrees served known).waiting_perm
  have left : c.queues.waiting.Perm (next.toList ++ q.waiting) := by
    have taken := moved.waiting
    rw [List.append_nil] at taken
    exact still.symm.trans (taken.symm.trans List.perm_append_comm)
  rw [← first]
  unfold pickNext
  simp only [if_neg (Nat.not_le_of_lt known), free]
  rw [made]
  cases next with
  | none => exact ⟨rfl, (serves.current? cpu).trans free, .of_heads agrees.distinct left lines own⟩
  | some pid =>
    obtain ⟨loosened, queued, absent⟩ := taken_agrees between moved
    have taken : c.Keeps { c.refill cpu with queues := q } :=
      refilled.trans (setQueues_keeps moved.cpus numbers)
    have same : c.Serves (c.refillInquiries cpu) { c.refill cpu with queues := q } :=
      serves.trans_still (.still rfl moved.cpus (fun _ => rfl) fun _ => rfl)
    obtain ⟨result, runs, queues⟩ := run_served loosened (taken.stocked served.stocked)
      (fun policy active => served.drains policy (taken.policy.symm.trans active))
      (taken.stocks served.stocks) queued absent ((same.current? cpu).trans free)
      (Nat.lt_of_lt_of_eq known same.cpus.symm) (same.backed backed)
    refine ⟨result, runs, .of_heads agrees.distinct ?_ ?_ ?_⟩
    · rw [queues]
      exact left
    · rw [queues]
      exact lines
    · rw [queues]
      exact own

theorem foremost_eq_none_iff (served : c.Served order) (cpu : CpuId) :
    c.foremost order cpu = none ↔ c.queues.ownLine cpu = [] ∧
      ∀ queue, isBuiltin queue = false ∨ queue = globalQueue → c.queues.line queue = [] := by
  simp only [foremost, Option.or_eq_none_iff, Option.map_eq_none_iff, List.head?_eq_none_iff,
    Queues.foremost_eq_none_iff]
  refine and_congr_right fun _ => ⟨fun ⟨policys, global⟩ queue either => ?_, fun all => ⟨?_, ?_⟩⟩
  · rcases either with own | rfl
    · by_cases member : queue ∈ order
      · exact policys queue member
      · have absent : c.queues.shared.contains queue ≠ true := fun present =>
          member ((served.numbers queue own).mp present)
        exact Queues.line_of_absent (by simpa using absent)
    · exact global
  · exact fun queue member => all queue (.inl (served.own queue member))
  · exact all globalQueue (.inr rfl)

/-- Whatever policies came and went before, one that comes with the host or none at all lets no processor
idle while a task waits that it could run: it finds nothing exactly if it has no task and nobody stands in
its own line, in the line of a policy's queue or in the global one. What it finds is its current task then,
and the only one that stopped waiting, if it waited at all. -/
theorem work_is_conserved (cpus : Nat) (memory : Memory) (ops : List (Operation Memory)) (cpu : CpuId) :
    let c := (new cpus memory).steps ops
    (c.policy = none ∨ ∃ policy : Policy Memory, c.policy = some policy ∧ policy.IsShipped) →
    cpu < c.cpus →
    ((c.pickNext cpu).1 = .ok none ↔ c.current? cpu = none ∧ c.queues.ownLine cpu = [] ∧
      ∀ queue, isBuiltin queue = false ∨ queue = globalQueue → c.queues.line queue = []) ∧
    ((c.pickNext cpu).1 ≠ .ok none → ∃ pid, (c.pickNext cpu).1 = .ok (some pid) ∧
      (c.pickNext cpu).2.current? cpu = some pid ∧
      (c.current? cpu = some pid ∧ (c.pickNext cpu).2 = c ∨
        c.current? cpu = none ∧ c.Sheds (some pid) (c.pickNext cpu).2)) := by
  intro c kind known
  obtain ⟨agrees, backed, _⟩ := new_agrees cpus memory
  obtain ⟨agrees, backed⟩ : c.Agrees [] ∧ c.Backed [] := steps_agree agrees backed ops
  have vacant : c.Vacant := steps_vacant (new_vacant cpus memory) ops
  have housed : c.Housed := steps_housed (new_vacant cpus memory) nofun ops
  obtain ⟨order, served⟩ : ∃ order, c.Served order := by
    rcases kind with free | ⟨policy, active, shipped⟩
    · exact ⟨_, .of_vacant vacant free⟩
    · obtain ⟨order, drains⟩ := shipped.drains
      exact ⟨order, .of_housed housed active drains⟩
  cases free : c.current? cpu with
  | some pid =>
    have busy : c.pickNext cpu = (.ok (some pid), c) := by
      simp only [pickNext, if_neg (Nat.not_le_of_lt known), free]
    rw [busy]
    exact ⟨by simp, fun _ => ⟨pid, rfl, free, .inl ⟨rfl, rfl⟩⟩⟩
  | none =>
    obtain ⟨result, runs, sheds⟩ := pickNext_served agrees backed served known free
    have nobody := foremost_eq_none_iff served cpu
    rw [result]
    generalize c.foremost order cpu = next at *
    refine ⟨by simpa using nobody, fun some => ?_⟩
    cases next with
    | none => exact absurd rfl some
    | some pid => exact ⟨pid, rfl, runs, .inr ⟨rfl, sheds⟩⟩

/-- The task is left on the global queue by the first policy, and the second finds it there. -/
theorem orphan_is_not_left_waiting :
    let c := (new 2 Memory.empty).steps [.install (Fifo.policy Memory), .addTask { pid := 1 },
      .enqueue 1 0, .uninstall, .install (Fifo.policy Memory)]
    c.policy = some (Fifo.policy Memory) ∧ c.queues.line Fifo.queue = [] ∧
      c.queues.line globalQueue = [1] ∧ (c.pickNext 0).1 = .ok (some 1) ∧
      c.Sheds (some 1) (c.pickNext 0).2 := by
  obtain ⟨_, takes⟩ := work_is_conserved 2 Memory.empty [.install (Fifo.policy Memory),
    .addTask { pid := 1 }, .enqueue 1 0, .uninstall, .install (Fifo.policy Memory)] 0
    (.inr ⟨Fifo.policy Memory, rfl, .fifo⟩) (by decide)
  obtain ⟨pid, found, _, ⟨impossible, _⟩ | ⟨_, sheds⟩⟩ := takes nofun
  · cases impossible
  · cases found
    exact ⟨rfl, rfl, rfl, rfl, sheds⟩

end LoadableSched.SchedClass
