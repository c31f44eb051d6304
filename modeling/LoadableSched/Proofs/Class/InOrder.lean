import LoadableSched.Proofs.Class.Growing

/-!
First in, first out, however many processors are served: the tasks that stand in the shared line start in
the order in which they were put there, whatever happens in between, and leave it otherwise only when they
are removed.
-/

namespace LoadableSched

variable {ω : Type}

namespace Queues

variable {q r : Queues}

theorem mem_waiting_of_line {queue : QueueId} {pid : Pid} (member : pid ∈ q.line queue) :
    pid ∈ q.shared.values.flatten := by
  unfold line at member
  cases found : q.shared.get? queue with
  | none =>
    rw [found] at member
    cases member
  | some pids =>
    rw [found] at member
    exact List.mem_flatten.mpr ⟨pids, List.mem_map_of_mem (Table.mem_entries_of_get? found), member⟩

theorem mem_waiting_of_ownLine {cpu : CpuId} {pid : Pid} (member : pid ∈ q.ownLine cpu) :
    pid ∈ q.locals.flatten := by
  unfold ownLine at member
  cases found : q.locals[cpu]? with
  | none =>
    rw [found] at member
    cases member
  | some pids =>
    rw [found] at member
    exact List.mem_flatten.mpr ⟨pids, List.mem_of_getElem? found, member⟩

theorem line_nodup (distinct : q.waiting.Nodup) (queue : QueueId) : (q.line queue).Nodup := by
  unfold line
  cases found : q.shared.get? queue with
  | none => exact List.nodup_nil
  | some pids =>
    have among := List.mem_map_of_mem (f := Prod.snd) (Table.mem_entries_of_get? found)
    exact ((List.nodup_append.mp distinct).1).sublist (List.sublist_flatten_of_mem among)

theorem not_waiting_of_remove (sound : q.WellFormed) (distinct : q.waiting.Nodup) (pid : Pid) :
    pid ∉ (q.remove pid).2.waiting := by
  have moved := remove_shifts sound pid
  by_cases before : pid ∈ q.waiting
  · rw [if_pos before] at moved
    exact (List.nodup_cons.mp (moved.waiting_lose.nodup_iff.mp distinct)).1
  · rw [if_neg before] at moved
    exact fun waits => before (moved.waiting_perm.mem_iff.mp waits)

theorem remove_line (sound : q.WellFormed) (distinct : q.waiting.Nodup) (pid : Pid) (queue : QueueId) :
    (q.remove pid).2.line queue = (q.line queue).erase pid := by
  have left : pid ∉ (q.remove pid).2.line queue := fun still =>
    not_waiting_of_remove sound distinct pid (List.mem_append_left _ (mem_waiting_of_line still))
  have either : (q.remove pid).2.line queue = q.line queue ∨
      (q.remove pid).2.line queue = (q.line queue).erase pid := by
    unfold remove
    split
    · rename_i home pids found
      have present : q.shared.contains home = true := by
        have entry := (sound.ordered.get?_eq_some_iff home pids).mpr (List.mem_of_find?_eq_some found)
        exact Table.contains_iff_exists.mpr ⟨pids, entry⟩
      rw [line_modify present]
      split
      · exact .inr rfl
      · exact .inl rfl
    · split <;> exact .inl rfl
  rcases either with same | erased
  · rw [same] at left ⊢
    exact (List.erase_of_not_mem left).symm
  · exact erased

end Queues

namespace SchedClass

variable {c d : SchedClass ω} {queue : QueueId}

/-! A processor picks a task. -/

theorem takeNext_lines (sound : c.queues.WellFormed) {cpu : CpuId} {next : Option Pid} {q : Queues}
    (made : c.takeNext cpu = (.ok next, { c with queues := q })) :
    next = (c.queues.ownLine cpu).head?.or (c.queues.line globalQueue).head? ∧
      (∀ queue, q.line queue =
        if c.queues.ownLine cpu = [] ∧ queue = globalQueue then (c.queues.line queue).tail
        else c.queues.line queue) ∧
      ∀ other, q.ownLine other =
        if other = cpu then (c.queues.ownLine other).tail else c.queues.ownLine other := by
  have popped : (c.queues.popLocal cpu).1 = (c.queues.ownLine cpu).head? := by
    simp only [Queues.popLocal, Queues.ownLine]
    cases c.queues.locals[cpu]? <;> rfl
  have shorter : ∀ other, (c.queues.popLocal cpu).2.ownLine other =
      if other = cpu then (c.queues.ownLine other).tail else c.queues.ownLine other := by
    intro other
    simp only [Queues.popLocal, Queues.ownLine, List.getElem?_modify]
    by_cases same : other = cpu
    · subst same
      cases c.queues.locals[other]? <;> simp
    · simp [same, Ne.symm same]
  unfold takeNext at made
  split at made
  · rename_i pid r own
    have rest : (c.queues.popLocal cpu).2 = r := congrArg Prod.snd own
    rw [own] at popped
    obtain ⟨⟨⟩, same⟩ := Prod.mk.inj made
    have same : r = q := congrArg SchedClass.queues same
    have some : c.queues.ownLine cpu ≠ [] := fun nobody => by simp [nobody] at popped
    rw [← popped, ← same, ← rest]
    exact ⟨rfl, fun queue => (if_neg fun both => some both.1).symm, shorter⟩
  · rename_i own
    rw [own] at popped
    have nobody : c.queues.ownLine cpu = [] := List.head?_eq_none_iff.mp popped.symm
    have present := sound.global
    obtain ⟨pids, found⟩ := Table.contains_iff_exists.mp present
    simp only [Queues.pop, found] at made
    obtain ⟨⟨⟩, same⟩ := Prod.mk.inj made
    have same : { c.queues with shared := c.queues.shared.modify globalQueue List.tail } = q :=
      congrArg SchedClass.queues same
    rw [← same]
    refine ⟨by simp [nobody, Queues.line, found], fun queue => ?_, fun other => ?_⟩
    · refine (Queues.line_modify present List.tail queue).trans ?_
      simp [nobody]
    · have still : ({ c.queues with shared := c.queues.shared.modify globalQueue List.tail }
          : Queues).ownLine other = c.queues.ownLine other := rfl
      rw [still]
      split
      · rename_i here
        rw [here, nobody, List.tail_nil]
      · rfl

theorem localLength_eq (c : SchedClass ω) (cpu : CpuId) :
    c.localLength cpu = (c.queues.ownLine cpu).length := by
  simp only [localLength, Queues.localLength, Queues.ownLine]
  cases c.queues.locals[cpu]? <;> rfl

theorem refill_lines (shares : c.Shares queue) {cpu : CpuId}
    (stays : (c.refill cpu).policy = c.policy) :
    c.queues.ownLine cpu ≠ [] ∧ c.refill cpu = c ∨
    c.queues.ownLine cpu = [] ∧ queue = globalQueue ∧ c.refill cpu = c ∨
    c.queues.ownLine cpu = [] ∧
      c.queues.line queue = (c.refill cpu).queues.ownLine cpu ++ (c.refill cpu).queues.line queue ∧
      (c.refill cpu).queues.ownLine cpu = (c.queues.line queue).head?.toList := by
  unfold refill at *
  cases active : c.policy with
  | none =>
    by_cases nobody : c.queues.ownLine cpu = []
    · exact .inr (.inl ⟨nobody, shares.isGlobal active, rfl⟩)
    · exact .inl ⟨nobody, rfl⟩
  | some policy =>
    simp only [active] at stays ⊢
    by_cases some : c.localLength cpu ≠ 0
    · simp only [if_pos some]
      refine .inl ⟨fun nobody => some ?_, trivial⟩
      rw [localLength_eq, nobody]
      rfl
    · have nobody : c.queues.ownLine cpu = [] := by
        rw [localLength_eq] at some
        exact List.length_eq_zero_iff.mp (Decidable.not_not.mp some)
      simp only [if_neg some] at stays ⊢
      have settled : Inquiry.after ⟨c, policy, .dispatch cpu (c.previousWaiting cpu)⟩ =
          c.consult cpu (policy.dispatch cpu (c.previousWaiting cpu)) :=
        after_consult policy rfl (by simp)
      have fine : Inquiry.failure ⟨c, policy, .dispatch cpu (c.previousWaiting cpu)⟩ = none :=
        Inquiry.fine_of_stays active (by rw [settled, stays]; exact Option.some_ne_none _)
      obtain ⟨line, own⟩ := Inquiry.dispatch_pooled (shares.pools active) rfl fine
      rw [settled] at line own
      rw [nobody, List.nil_append] at own
      exact .inr (.inr ⟨nobody, own ▸ line, own⟩)

theorem taken_line (agrees : c.Agrees []) (shares : c.Shares queue) {cpu : CpuId}
    (stays : (c.refill cpu).policy = c.policy) {next : Option Pid} {q : Queues}
    (made : (c.refill cpu).takeNext cpu = (.ok next, { c.refill cpu with queues := q })) :
    (q.line queue = c.queues.line queue ∧ ∀ pid ∈ c.queues.line queue, next ≠ some pid) ∨
      ∃ pid, next = some pid ∧ c.queues.line queue = pid :: q.line queue := by
  obtain ⟨_, refilled⟩ := refill_serves agrees cpu
  obtain ⟨taken, lines, _⟩ := takeNext_lines refilled.queues made
  rcases refill_lines shares stays with ⟨some, same⟩ | ⟨nobody, rfl, same⟩ | ⟨nobody, line, own⟩
  · rw [same] at taken lines
    refine .inl ⟨(lines queue).trans (if_neg fun both => some both.1), fun pid member is => ?_⟩
    obtain ⟨first, rest, own⟩ := List.exists_cons_of_ne_nil some
    rw [own, List.head?_cons, Option.some_or] at taken
    -- Nobody stands in two lines.
    have apart := (List.nodup_append.mp agrees.distinct).2.2
    cases Option.some.inj (is.symm.trans taken)
    have here : pid ∈ c.queues.ownLine cpu := own ▸ List.mem_cons_self
    exact apart pid (Queues.mem_waiting_of_line member) pid (Queues.mem_waiting_of_ownLine here) rfl
  · rw [same] at taken lines
    have shorter := (lines globalQueue).trans (if_pos ⟨nobody, rfl⟩)
    rw [nobody, List.head?_nil, Option.none_or] at taken
    cases standing : c.queues.line globalQueue with
    | nil => exact .inl ⟨by rw [shorter, standing]; rfl, nofun⟩
    | cons pid rest =>
      rw [standing] at taken shorter
      exact .inr ⟨pid, taken, by rw [shorter]; rfl⟩
  · cases standing : c.queues.line queue with
    | nil =>
      rw [standing] at line
      have empty := (List.append_eq_nil_iff.mp line.symm).2
      refine .inl ⟨(lines queue).trans ?_, nofun⟩
      rw [empty]
      exact ite_self _
    | cons pid rest =>
      rw [standing] at line own
      rw [own] at line taken lines
      have unmoved := (lines queue).trans (if_neg fun both => nomatch both.1)
      refine .inr ⟨pid, taken, ?_⟩
      rw [unmoved]
      exact line

theorem start_pooled (shares : c.Shares queue) {cpu : CpuId} {task : Task}
    (stays : (c.start cpu task).policy = c.policy) :
    (c.start cpu task).queues.line queue = c.queues.line queue ∧
      (∀ pid, (c.start cpu task).state? pid = c.state? pid) ∧ (c.start cpu task).current = c.current := by
  unfold start at *
  cases active : c.policy with
  | none => exact ⟨rfl, fun _ => rfl, rfl⟩
  | some policy =>
    simp only [active] at stays ⊢
    have pools := shares.pools active
    have settled : Inquiry.after ⟨c, policy, .running cpu task⟩ = c.consult cpu (policy.running task) :=
      after_consult policy rfl (by simp)
    have fine : Inquiry.failure ⟨c, policy, .running cpu task⟩ = none :=
      Inquiry.fine_of_stays active (by rw [settled, stays]; exact Option.some_ne_none _)
    have nothing : Inquiry.dispatches ⟨c, policy, .running cpu task⟩ = [] := by
      have asked := (pools.running cpu c.clock ⟨c.queues, [], none, c.memory⟩ task).2
      simp [Inquiry.dispatches, Inquiry.requests, Policy.answer, Matter.cpu, asked]
    obtain ⟨_, _, states, current⟩ := Inquiry.quiet_of_fine fine nothing
    have line := Inquiry.pooled_line (i := ⟨c, policy, .running cpu task⟩) pools (by simp) (by simp) fine
    rw [settled] at states current line
    exact ⟨line.trans (List.append_nil _), states, current⟩

theorem run_begins {cpu : CpuId} {pid : Pid} (queued : c.state? pid = some .queued)
    (known : cpu < c.current.length) (shares : c.Shares queue)
    (stays : (c.run cpu pid).2.policy = c.policy) :
    (c.run cpu pid).1 = .ok (some pid) ∧
      (c.run cpu pid).2.queues.line queue = c.queues.line queue ∧
      (c.run cpu pid).2.current? cpu = some pid ∧
      (c.run cpu pid).2.state? pid = some (.running cpu) := by
  obtain ⟨slot, found, _⟩ := Option.map_eq_some_iff.mp queued
  have there : (c.occupy cpu pid).tasks.get? pid = some slot := found
  have current := (current?_engage known pid cpu).trans (if_pos rfl)
  have runs : ((c.occupy cpu pid).engage cpu pid).state? pid = some (.running cpu) :=
    (state?_engage queued pid).trans (if_pos rfl)
  have same : ((c.occupy cpu pid).engage cpu pid).policy = c.policy := rfl
  have line : ((c.occupy cpu pid).engage cpu pid).queues.line queue = c.queues.line queue := rfl
  unfold run at *
  simp only [there] at stays ⊢
  generalize (c.occupy cpu pid).engage cpu pid = d at *
  obtain ⟨still, states, running⟩ := start_pooled (shares.congr same) (stays.trans same.symm)
  exact ⟨trivial, still.trans line, by rw [current?, running]; exact current, (states pid).trans runs⟩

theorem pickNext_arrivals (cpu : CpuId) : c.arrivals queue (.pickNext cpu) = [] := by
  have nothing : ∀ i ∈ c.pickNextInquiries cpu, i.enqueued queue = [] := by
    intro i asked
    unfold pickNextInquiries at asked
    split at asked
    · cases asked
    split at asked
    · cases asked
    rcases List.mem_append.mp asked with first | later
    · unfold refillInquiries at first
      split at first
      · cases first
      · split at first
        · cases first
        · cases List.mem_singleton.mp first
          rfl
    · split at later
      · unfold runInquiries startInquiries at later
        dsimp only at later
        split at later
        · cases later
        · split at later
          · cases later
          · cases List.mem_singleton.mp later
            rfl
      · cases later
  unfold arrivals
  split
  · exact List.flatMap_eq_nil_iff.mpr nothing
  · exact ite_self _

theorem startsOf_eq_nil {cpu : CpuId} (nobody : ∀ pid ∈ c.queues.line queue, ¬ c.Starts cpu pid) :
    c.startsOf queue (.pickNext cpu) = [] := by
  simpa [startsOf] using nobody

theorem Starts.unique {cpu : CpuId} {pid other : Pid} (first : c.Starts cpu pid)
    (second : c.Starts cpu other) : other = pid :=
  Option.some.inj (Option.some.inj (second.2.1.symm.trans first.2.1))

theorem startsOf_head {cpu : CpuId} {pid : Pid} {rest : List Pid} (starts : c.Starts cpu pid)
    (head : c.queues.line queue = pid :: rest) (distinct : (pid :: rest).Nodup) :
    c.startsOf queue (.pickNext cpu) = [(pid, cpu)] := by
  have others : rest.filter (fun other => c.Starts cpu other) = [] := by
    refine List.filter_eq_nil_iff.mpr fun other member begins => ?_
    exact (List.nodup_cons.mp distinct).1 (starts.unique (of_decide_eq_true begins) ▸ member)
  simp only [startsOf, head, List.filter_cons, starts, others]
  rfl

theorem refill_stays {cpu : CpuId} {next : Option Pid} (free : c.current? cpu = none)
    (known : ¬ c.cpus ≤ cpu) (made : (c.refill cpu).takeNext cpu = (.ok next, d))
    (stays : (c.pickNext cpu).2.policy = c.policy) :
    (c.refill cpu).policy = c.policy ∧ d.policy = c.policy := by
  have taken := (Tends.takeNext (c.refill cpu) cpu).policy
  rw [made] at taken
  have refilled : (c.refill cpu).policy = c.policy := by
    rcases (c.refill_leads cpu).hears.policy_or with same | gone
    · exact same
    simp only [pickNext, if_neg known, free, made] at stays
    rw [gone, ← stays]
    cases next with
    | none => exact (taken.trans gone).symm
    | some pid => exact ((d.run_leads cpu pid).hears.none_left (taken.trans gone)).2.symm
  exact ⟨refilled, taken.trans refilled⟩

theorem pickNext_turn (agrees : c.Agrees []) (backed : c.Backed []) (shares : c.Shares queue)
    {cpu : CpuId} (stays : (c.pickNext cpu).2.policy = c.policy) : c.Turn queue (.pickNext cpu) := by
  have nobody : c.arrivals queue (.pickNext cpu) = [] := c.pickNext_arrivals cpu
  have still : (c.pickNext cpu).2.queues.line queue = c.queues.line queue →
      (∀ pid ∈ c.queues.line queue, ¬ c.Starts cpu pid) → c.Turn queue (.pickNext cpu) := fun same none =>
    .joins (by rw [nobody, List.append_nil]; exact same) (startsOf_eq_nil none)
  by_cases unknown : c.cpus ≤ cpu
  · have refused : c.pickNext cpu = (.error (.invalidCpu cpu), c) := if_pos unknown
    exact still (by rw [refused]) fun pid _ starts => by simpa [refused, Except.toOption] using starts.2.1
  cases free : c.current? cpu with
  | some pid =>
    have busy : c.pickNext cpu = (.ok (some pid), c) := by simp [pickNext, unknown, free]
    exact still (by rw [busy]) fun _ _ starts => by simpa [free] using starts.1
  | none =>
    obtain ⟨serves, between⟩ := refill_serves agrees cpu
    obtain ⟨next, q, made, moved, _⟩ := takeNext_eq between.queues cpu
    obtain ⟨refilled, taken⟩ := refill_stays free unknown made stays
    have line := taken_line agrees shares refilled made
    cases next with
    | none =>
      have idle : c.pickNext cpu = (.ok none, { c.refill cpu with queues := q.setIdle cpu true }) := by
        simp [pickNext, unknown, free, made]
      obtain ⟨same, _⟩ | ⟨pid, ⟨⟩, _⟩ := line
      exact still (by rw [idle]; exact same) fun pid _ starts => by
        simpa [idle, Except.toOption] using starts.2.1
    | some pid =>
      obtain ⟨_, queued, _⟩ := taken_agrees between moved
      have known : cpu < (c.refill cpu).current.length := by
        rw [serves.current, backed.processors]
        exact Nat.lt_of_not_le unknown
      have ran : c.pickNext cpu = ({ c.refill cpu with queues := q } : SchedClass ω).run cpu pid := by
        simp [pickNext, unknown, free, made]
      obtain ⟨answer, unmoved, current, runs⟩ := run_begins (c := { c.refill cpu with queues := q })
        queued known (shares.congr taken) (by rw [← ran, stays, taken])
      rw [← ran] at answer unmoved current runs
      have starts : c.Starts cpu pid := ⟨free, by rw [answer]; rfl, current, runs⟩
      rcases line with ⟨same, apart⟩ | ⟨_, ⟨⟩, head⟩
      · exact still (unmoved.trans same) fun other member begins =>
          apart other member (by rw [starts.unique begins])
      · have distinct := head ▸ Queues.line_nodup agrees.distinct queue
        exact .starts pid cpu (head.trans (congrArg (pid :: ·) unmoved.symm)) (if_pos starts)
          (startsOf_head starts head distinct) nobody

theorem removeTask_turn (agrees : c.Agrees []) (pid : Pid) : c.Turn queue (.removeTask pid) := by
  have nobody : c.arrivals queue (.removeTask pid) = [] := by
    unfold arrivals
    split
    · rfl
    · exact ite_self _
  have still : (c.removeTask pid).2.queues.line queue = c.queues.line queue →
      c.Turn queue (.removeTask pid) := fun same =>
    .joins (by rw [nobody, List.append_nil]; exact same) rfl
  cases found : c.tasks.get? pid with
  | none => exact still (by simp [removeTask, found])
  | some slot =>
    cases state : slot.state with
    | sleeping => exact still (by simp [removeTask, found, state])
    | running cpu =>
      refine still ?_
      simp only [removeTask, found, state]
      rfl
    | queued =>
      refine .leaves pid ?_ (if_pos rfl) rfl nobody
      have removed : (c.step (.removeTask pid)).queues = (c.queues.remove pid).2 := by
        simp [step, removeTask, found, state]
      rw [removed]
      exact Queues.remove_line agrees.queues agrees.distinct pid queue

theorem joins_turn {op : Operation ω} (shares : c.Shares queue) (idle : c.startsOf queue op = [])
    (under : ∀ policy, c.policy = some policy → policy.Pools queue →
      Grows queue c (c.inquiries op) (c.step op))
    (without : c.policy = none → (c.step op).queues.line globalQueue =
      c.queues.line globalQueue ++ c.readied op) : c.Turn queue op := by
  refine .joins ?_ idle
  cases active : c.policy with
  | some policy =>
    rw [arrivals, active]
    exact under policy active (shares.pools active)
  | none =>
    cases shares.isGlobal active
    rw [arrivals, active]
    exact without active

/-- Every operation that lets the policy be does one of these to the line that all processors share. -/
theorem step_turn (agrees : c.Agrees []) (backed : c.Backed []) (shares : c.Shares queue)
    {op : Operation ω} (spares : op.SparesPolicy) (stays : (c.step op).policy = c.policy) :
    c.Turn queue op := by
  have kept : ∀ {policy}, c.policy = some policy → (c.step op).policy ≠ none := fun active => by
    rw [stays, active]
    exact Option.some_ne_none _
  cases op with
  | install policy => exact spares.elim
  | uninstall => exact spares.elim
  | removeTask pid => exact removeTask_turn agrees pid
  | pickNext cpu => exact pickNext_turn agrees backed shares stays
  | addTask task =>
    exact joins_turn shares rfl (fun _ active pools => addTask_grows active pools (kept active))
      fun free => addTask_joins free task
  | wake pid flags =>
    exact joins_turn shares rfl (fun _ active pools => wake_grows active pools (kept active))
      fun free => wake_joins free agrees.queues pid flags
  | enqueue pid flags =>
    exact joins_turn shares rfl (fun _ active pools => enqueue_grows active pools (kept active))
      fun free => enqueue_joins free agrees.queues pid flags
  | stop cpu ran runnable =>
    exact joins_turn shares rfl (fun _ active pools => stop_grows active pools (kept active))
      fun free => stop_joins free agrees.queues cpu ran runnable backed
  | advanceClock delta =>
    exact joins_turn shares rfl (fun _ _ _ => .refl c) fun _ => (List.append_nil _).symm
  | setMemory memory =>
    exact joins_turn shares rfl (fun _ _ _ => .refl c) fun _ => (List.append_nil _).symm

theorem steps_inOrder (agrees : c.Agrees []) (backed : c.Backed []) (shares : c.Shares queue)
    {ops : List (Operation ω)} (spares : ∀ op ∈ ops, op.SparesPolicy)
    (stays : ∀ early later, ops = early ++ later → (c.steps early).policy = c.policy) :
    c.InOrder queue ops := by
  refine ⟨(pids_keep _ ops).trans (by simp [Function.comp_def]), ?_⟩
  refine keep_kept ops (.opened _) fun early op later split => ?_
  obtain ⟨agrees, backed⟩ := steps_agree agrees backed early
  have before := stays early (op :: later) split
  have after := stays (early ++ [op]) later (by rw [split, List.append_assoc]; rfl)
  rw [steps_append] at after
  refine ⟨Queues.line_nodup agrees.distinct queue, step_turn agrees backed (shares.congr before) ?_
    (after.trans before.symm)⟩
  exact spares op (split ▸ List.mem_append_right _ List.mem_cons_self)

theorem steps_policy_or {ops : List (Operation ω)} (spares : ∀ op ∈ ops, op.SparesPolicy) :
    (c.steps ops).policy = c.policy ∨ (c.steps ops).policy = none := by
  induction ops generalizing c with
  | nil => exact .inl rfl
  | cons op rest ih =>
    have first := (step_hears c (spares op List.mem_cons_self)).policy_or
    rcases ih (c := c.step op) fun op member => spares op (List.mem_cons_of_mem _ member) with same | gone
    · rw [steps, same]
      exact first
    · exact .inr gone

theorem steps_stay {ops : List (Operation ω)} (spares : ∀ op ∈ ops, op.SparesPolicy)
    (same : (c.steps ops).policy = c.policy) {early later : List (Operation ω)}
    (split : ops = early ++ later) : (c.steps early).policy = c.policy := by
  subst split
  obtain ⟨first, rest⟩ := List.forall_mem_append.mp spares
  rw [steps_append] at same
  rcases steps_policy_or (c := c) first with same | gone
  · exact same
  · rcases steps_policy_or (c := c.steps early) rest with still | gone'
    · exact still.symm.trans same
    · rw [gone, ← same, gone']

/-- The queue that all processors share is served first in, first out, on any number of processors and in
any interleaving of operations, whatever happened before: the policy's queue while one of the policies with
one queue stays in place, and the global queue while there is no policy. -/
theorem shared_queue_serves_in_order (cpus : Nat) (memory : Memory)
    (before ops : List (Operation Memory)) (spares : ∀ op ∈ ops, op.SparesPolicy) :
    let c := (new cpus memory).steps before
    (∀ policy : Policy Memory, (policy = Fifo.policy Memory ∨ ∃ r : RoundRobin, policy = r.policy) →
      (c.steps ops).policy = some policy → c.InOrder 0 ops) ∧
    (c.policy = none → c.InOrder globalQueue ops) := by
  obtain ⟨agrees, backed, _⟩ := new_agrees cpus memory
  obtain ⟨agrees, backed⟩ := steps_agree agrees backed before
  generalize (new cpus memory).steps before = c at *
  have either := steps_policy_or (c := c) spares
  refine ⟨fun policy kind there => ?_, fun free => ?_⟩
  · have same : (c.steps ops).policy = c.policy := either.resolve_right fun gone => by simp [there] at gone
    have pools : policy.Pools 0 := by
      rcases kind with rfl | ⟨r, rfl⟩
      · exact Fifo.pools
      · exact r.pools
    have shares : c.Shares 0 := by
      unfold Shares
      rw [← same, there]
      exact pools
    exact steps_inOrder agrees backed shares spares fun _ _ => steps_stay spares same
  · have same : (c.steps ops).policy = c.policy := by
      rcases either with same | gone
      · exact same
      · rw [gone, free]
    have shares : c.Shares globalQueue := by
      unfold Shares
      rw [free]
    exact steps_inOrder agrees backed shares spares fun _ _ => steps_stay spares same

def trio : SchedClass Memory := (new 2 Memory.empty).steps [.install (Fifo.policy Memory),
  .addTask { pid := 1 }, .addTask { pid := 2 }, .addTask { pid := 3 }]

def trioRun : List (Operation Memory) := [.enqueue 1 0, .enqueue 2 0, .enqueue 3 0, .removeTask 2,
  .pickNext 1, .stop 1 5 true, .pickNext 0, .pickNext 1]

theorem trio_serves_in_order :
    (∀ op ∈ trioRun, op.SparesPolicy) ∧ (trio.steps trioRun).policy = some (Fifo.policy Memory) ∧
      trio.InOrder 0 trioRun ∧ trio.starts 0 trioRun = [(1, 1), (3, 0), (1, 1)] := by
  have spares : ∀ op ∈ trioRun, op.SparesPolicy := by
    intro op member
    simp only [trioRun, List.mem_cons, List.not_mem_nil, or_false] at member
    rcases member with rfl | rfl | rfl | rfl | rfl | rfl | rfl | rfl <;> trivial
  have stays : (trio.steps trioRun).policy = some (Fifo.policy Memory) := rfl
  have served := (shared_queue_serves_in_order 2 Memory.empty [.install (Fifo.policy Memory),
    .addTask { pid := 1 }, .addTask { pid := 2 }, .addTask { pid := 3 }] trioRun spares).1
  exact ⟨spares, stays, served (Fifo.policy Memory) (.inl rfl) stays, by decide +kernel⟩

end SchedClass

end LoadableSched
