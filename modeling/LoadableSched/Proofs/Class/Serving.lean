import LoadableSched.Class.Calls
import LoadableSched.Proofs.Class.Migration

/-!
What becomes of the tasks while an operation consults the policy: a task changes its state only
because a callback put it on a queue, and a policy that is removed on the way changes nothing in that.
-/

namespace LoadableSched.SchedClass

variable {ω α : Type} {c d e : SchedClass ω} {loose : List Pid} {xs ys : List (Inquiry ω)}

/-- From `c` to `d` these callbacks ran, and every task that changed its state was put on a queue by
one of them. -/
structure Serves (c : SchedClass ω) (is : List (Inquiry ω)) (d : SchedClass ω) : Prop where
  current : d.current = c.current
  cpus : d.cpus = c.cpus
  registered : ∀ pid, d.tasks.contains pid = c.tasks.contains pid
  settled : ∀ pid, d.state? pid = c.state? pid ∨
    (d.state? pid = some .queued ∧ ∃ i ∈ is, i.call.Puts pid)
  puts : ∀ i ∈ is, ∀ pid, i.call.Puts pid → d.state? pid = some .queued
  before : ∀ i ∈ is, i.before.current = c.current

namespace Serves

theorem still (current : d.current = c.current) (cpus : d.cpus = c.cpus)
    (registered : ∀ pid, d.tasks.contains pid = c.tasks.contains pid)
    (states : ∀ pid, d.state? pid = c.state? pid) : c.Serves [] d where
  current := current
  cpus := cpus
  registered := registered
  settled pid := .inl (states pid)
  puts _ member := absurd member List.not_mem_nil
  before _ member := absurd member List.not_mem_nil

theorem refl (c : SchedClass ω) : c.Serves [] c := still rfl rfl (fun _ => rfl) fun _ => rfl

theorem trans (first : c.Serves xs d) (later : d.Serves ys e) : c.Serves (xs ++ ys) e where
  current := later.current.trans first.current
  cpus := later.cpus.trans first.cpus
  registered pid := (later.registered pid).trans (first.registered pid)
  settled pid := by
    rcases later.settled pid with same | ⟨queued, i, member, put⟩
    · rcases first.settled pid with before | ⟨queued, i, member, put⟩
      · exact .inl (same.trans before)
      · exact .inr ⟨same.trans queued, i, List.mem_append_left _ member, put⟩
    · exact .inr ⟨queued, i, List.mem_append_right _ member, put⟩
  puts i member pid put := by
    rcases List.mem_append.mp member with early | late
    · rcases later.settled pid with same | ⟨queued, _⟩
      · exact same.trans (first.puts i early pid put)
      · exact queued
    · exact later.puts i late pid put
  before i member := by
    rcases List.mem_append.mp member with early | late
    · exact first.before i early
    · exact (later.before i late).trans first.current

theorem trans_still (first : c.Serves xs d) (later : d.Serves [] e) : c.Serves xs e := by
  simpa using first.trans later

theorem after_still (first : c.Serves [] d) (later : d.Serves ys e) : c.Serves ys e := by
  simpa using first.trans later

end Serves

theorem Places.serves {i : Inquiry ω} (h : i.before.Places d) (reached : i.reached.queues = d.queues) :
    i.before.Serves [i] d where
  current := h.current
  cpus := h.cpus
  registered := h.contains
  settled pid := by
    rcases h.placed pid with ⟨same, _⟩ | ⟨absent, waits, slot, slice, _, after⟩
    · exact .inl (congrArg (Option.map Slot.state) same)
    · have put : i.call.Puts pid := ⟨absent, reached ▸ waits⟩
      exact .inr ⟨congrArg (Option.map Slot.state) after, i, List.mem_singleton_self _, put⟩
  puts j member pid put := by
    cases List.mem_singleton.mp member
    obtain ⟨absent, waits⟩ : pid ∉ i.before.queues.waiting ∧ pid ∈ d.queues.waiting := reached ▸ put
    rcases h.placed pid with ⟨_, same⟩ | ⟨_, _, slot, slice, _, after⟩
    · exact absurd (same.mp waits) absent
    · exact congrArg (Option.map Slot.state) after
  before j member := by
    cases List.mem_singleton.mp member
    rfl

/-! Changes of one task. -/

theorem state?_mapTask (c : SchedClass ω) (pid : Pid) (f : Task → Task) (other : Pid) :
    (c.mapTask pid f).state? other = c.state? other := by
  simp only [state?, mapTask, Table.get?_modify]
  split
  · cases c.tasks.get? other <;> rfl
  · rfl

theorem state?_setState (c : SchedClass ω) (pid : Pid) (state : RunState) (other : Pid) :
    (c.setState pid state).state? other =
      if other = pid then (c.state? other).map fun _ => state else c.state? other := by
  simp only [state?, setState, Table.get?_modify]
  split
  · cases c.tasks.get? other <;> rfl
  · rfl

theorem state?_setState_self {pid : Pid} {before : RunState} (found : c.state? pid = some before)
    (state : RunState) : (c.setState pid state).state? pid = some state := by
  rw [state?_setState, if_pos rfl, found]
  rfl

theorem mapTask_serves (c : SchedClass ω) (pid : Pid) (f : Task → Task) :
    c.Serves [] (c.mapTask pid f) :=
  .still rfl rfl (fun _ => Table.contains_modify _ _ _ _) (c.state?_mapTask pid f)

theorem Agrees.congr (agrees : c.Agrees loose) (queues : d.queues = c.queues)
    (tasks : d.tasks.Ordered) (states : ∀ pid, d.state? pid = c.state? pid) : d.Agrees loose where
  queues := queues ▸ agrees.queues
  tasks := tasks
  distinct := queues ▸ agrees.distinct
  queued pid waits := (states pid).trans (agrees.queued pid (queues ▸ waits))
  waits pid queued := queues ▸ agrees.waits pid ((states pid).symm.trans queued)

theorem mapTask_agrees (agrees : c.Agrees loose) (pid : Pid) (f : Task → Task) :
    (c.mapTask pid f).Agrees loose :=
  agrees.congr rfl (agrees.tasks.modify _ _) (c.state?_mapTask pid f)

theorem setState_queued_agrees (agrees : c.Agrees []) (pid : Pid) :
    (c.setState pid .queued).Agrees [pid] where
  queues := agrees.queues
  tasks := agrees.tasks.modify _ _
  distinct := agrees.distinct
  queued other waits := by
    have queued := agrees.queued other waits
    rw [state?_setState, queued]
    split <;> rfl
  waits other queued := by
    rw [state?_setState] at queued
    split at queued
    · rename_i same
      exact .inr (List.mem_singleton.mpr same)
    · exact .inl ((agrees.waits other queued).resolve_right (List.not_mem_nil))

section

variable (agrees : c.Agrees loose)

include agrees

theorem requeueOrphans_serves :
    c.Serves [] (requeueOrphans { c with policy := none }) ∧
      (requeueOrphans { c with policy := none }).Agrees [] := by
  have removed : ({ c with policy := none } : SchedClass ω).Agrees loose :=
    agrees.congr rfl agrees.tasks fun _ => rfl
  have follows := requeueOrphans_follows removed
  exact ⟨.still follows.current follows.cpus follows.contains (requeueOrphans_state? removed),
    requeueOrphans_agrees removed⟩

theorem abort_serves (active : c.policy.isSome) (reason : ClassError) :
    c.Serves [] (c.abort reason) ∧ (c.abort reason).Agrees [] := by
  obtain ⟨policy, active⟩ := Option.isSome_iff_exists.mp active
  obtain ⟨serves, after⟩ := requeueOrphans_serves agrees
  have state : c.abort reason = { requeueOrphans { c with policy := none } with
      exit := some ⟨policy.name, reason⟩ } := by
    simp only [abort, active]
  rw [state]
  exact ⟨⟨serves.current, serves.cpus, serves.registered, serves.settled, serves.puts, serves.before⟩,
    after.congr rfl after.tasks fun _ => rfl⟩

end

/-! The callbacks, each with what the class does once it returned. -/

theorem consult_serves {i : Inquiry ω} (agrees : i.before.Agrees []) (active : i.before.policy.isSome)
    (cpu : CpuId) (body : Callback ω α) (reached : i.reached = (i.before.callAndPlace cpu body).2) :
    i.before.Serves [i] (i.before.consult cpu body) ∧ (i.before.consult cpu body).Agrees [] := by
  have places := callAndPlace_places agrees cpu body
  have asked := places.serves (congrArg SchedClass.queues reached)
  unfold consult
  split <;> rename_i outcome <;> rw [outcome] at places asked
  · obtain ⟨serves, after⟩ := abort_serves (places.agrees agrees) (places.policy ▸ active) _
    exact ⟨asked.trans_still serves, after⟩
  · exact ⟨asked, places.agrees agrees⟩

theorem refill_serves (agrees : c.Agrees []) (cpu : CpuId) :
    c.Serves (c.refillInquiries cpu) (c.refill cpu) ∧ (c.refill cpu).Agrees [] := by
  unfold refill refillInquiries
  cases active : c.policy with
  | none => exact ⟨.refl c, agrees⟩
  | some policy =>
    dsimp only
    split
    · exact ⟨.refl c, agrees⟩
    · exact consult_serves (i := ⟨c, policy, _⟩) agrees (by rw [active]; rfl) _ _ rfl

theorem start_serves (agrees : c.Agrees []) (cpu : CpuId) (task : Task) :
    c.Serves (c.startInquiries cpu task) (c.start cpu task) ∧ (c.start cpu task).Agrees [] := by
  unfold start startInquiries
  cases active : c.policy with
  | none => exact ⟨.refl c, agrees⟩
  | some policy => exact consult_serves (i := ⟨c, policy, _⟩) agrees (by rw [active]; rfl) _ _ rfl

theorem halt_serves (agrees : c.Agrees []) (cpu : CpuId) (task : Task) (runnable : Bool) :
    c.Serves (c.haltInquiries cpu task runnable) (c.halt cpu task runnable) ∧
      (c.halt cpu task runnable).Agrees [] := by
  unfold halt haltInquiries
  cases active : c.policy with
  | none => exact ⟨.refl c, agrees⟩
  | some policy => exact consult_serves (i := ⟨c, policy, _⟩) agrees (by rw [active]; rfl) _ _ rfl

theorem reached_enqueue (c : SchedClass ω) (policy : Policy ω) (pid : Pid) (task : Task) (cpu : CpuId)
    (flags : UInt64) : (⟨c, policy, .enqueue pid task cpu flags⟩ : Inquiry ω).reached =
      (c.callAndPlace cpu (policy.enqueue task flags)).2 := by
  unfold Inquiry.reached Inquiry.heed
  dsimp only
  generalize c.callAndPlace cpu (policy.enqueue task flags) = made
  obtain ⟨_ | _, d⟩ := made <;> rfl

theorem reached_enable_queues (c : SchedClass ω) (policy : Policy ω) (pid : Pid) (task : Task) :
    (⟨c, policy, .enable pid task⟩ : Inquiry ω).reached.queues =
      (c.call task.lastCpu (policy.enable task)).2.queues := by
  unfold Inquiry.reached Inquiry.heed
  dsimp only
  generalize c.call task.lastCpu (policy.enable task) = made
  obtain ⟨_ | _, d⟩ := made <;> rfl

theorem enqueueWith_serves {pid : Pid} (agrees : c.Agrees [pid]) (active : c.policy.isSome)
    (registered : c.tasks.contains pid = true) (policy : Policy ω) (cpu : CpuId) (flags : UInt64) :
    c.Serves (c.enqueueWithInquiries policy pid cpu flags) (c.enqueueWith policy pid cpu flags) ∧
      (c.enqueueWith policy pid cpu flags).Agrees [] := by
  obtain ⟨slot, found⟩ := Table.contains_iff_exists.mp registered
  have task : c.task? pid = some slot.task := by rw [task?, found]; rfl
  have places := callAndPlace_places agrees cpu (policy.enqueue slot.task flags)
  have waiting : ∀ placed, (c.callAndPlace cpu (policy.enqueue slot.task flags)).1 = .ok placed →
      ∀ other ∈ placed, other ∈ (c.callAndPlace cpu (policy.enqueue slot.task flags)).2.queues.waiting :=
    fun _ => callAndPlace_waiting agrees
  have asked := places.serves (i := ⟨c, policy, .enqueue pid slot.task cpu flags⟩) (by rw [reached_enqueue])
  unfold enqueueWith enqueueWithInquiries
  simp only [task]
  split <;> rename_i outcome <;> rw [outcome] at places waiting asked
  · obtain ⟨serves, after⟩ := abort_serves (places.agrees agrees) (places.policy ▸ active) _
    exact ⟨asked.trans_still serves, after⟩
  · split
    · rename_i member
      have waits := waiting _ rfl pid (by simpa using member)
      exact ⟨asked, (places.agrees agrees).tighten waits⟩
    · obtain ⟨serves, after⟩ := abort_serves (places.agrees agrees) (places.policy ▸ active) _
      exact ⟨asked.trans_still serves, after⟩

theorem enable_serves (agrees : c.Agrees []) (pid : Pid) :
    c.Serves (c.enableInquiries pid) (c.enable pid) ∧ (c.enable pid).Agrees [] := by
  unfold enable enableWith enableInquiries
  cases active : c.policy with
  | none => exact ⟨.refl c, agrees⟩
  | some policy =>
    cases found : c.task? pid with
    | none => exact ⟨.refl c, agrees⟩
    | some task =>
      have places := call_places agrees task.lastCpu (policy.enable task)
      have asked := places.serves (i := ⟨c, policy, .enable pid task⟩) (reached_enable_queues ..)
      dsimp only
      split <;> rename_i outcome <;> rw [outcome] at places asked
      · have still := places.policy.trans active
        obtain ⟨serves, after⟩ := abort_serves (places.agrees agrees) (by rw [still]; rfl) _
        exact ⟨asked.trans_still serves, after⟩
      · exact ⟨asked.trans_still (mapTask_serves _ _ _), mapTask_agrees (places.agrees agrees) _ _⟩

theorem enableAll_serves (agrees : c.Agrees []) (pids : List Pid) :
    c.Serves (c.enableAllInquiries pids) (pids.foldl enable c) ∧ (pids.foldl enable c).Agrees [] := by
  induction pids generalizing c with
  | nil => exact ⟨.refl c, agrees⟩
  | cons pid rest ih =>
    obtain ⟨first, between⟩ := enable_serves agrees pid
    obtain ⟨later, after⟩ := ih between
    exact ⟨first.trans later, after⟩

theorem introduce_places (agrees : c.Agrees loose) (policy : Policy ω) :
    c.Places (c.introduce policy).2 := by
  have called := call_places agrees 0 policy.init
  unfold introduce
  split <;> rename_i outcome <;> rw [outcome] at called
  · exact called
  · rename_i placements _
    split
    · exact called
    · have placed := place_places (called.agrees agrees) 0 [] placements
      split <;> rename_i made <;> rw [made] at placed <;> exact called.trans placed

theorem chooseCpu_places (agrees : c.Agrees loose) (policy : Policy ω) (task : Task)
    (flags : UInt64) : c.Places (c.chooseCpu policy task flags).2 := by
  have called := call_places agrees task.lastCpu (policy.selectCpu task task.lastCpu flags)
  unfold chooseCpu
  split <;> rename_i outcome <;> rw [outcome] at called
  · exact called
  · rename_i cpu placements _
    split
    · exact called
    · have placed := place_places (called.agrees agrees) cpu [] placements
      split <;> rename_i made <;> rw [made] at placed <;> exact called.trans placed

theorem chooseCpu_waiting (agrees : c.Agrees loose) {policy : Policy ω} {task : Task}
    {flags : UInt64} {cpu : CpuId} {placed : List Pid}
    (made : (c.chooseCpu policy task flags).1 = .ok (cpu, placed)) :
    ∀ pid ∈ placed, pid ∈ (c.chooseCpu policy task flags).2.queues.waiting := by
  have called := call_places agrees task.lastCpu (policy.selectCpu task task.lastCpu flags)
  unfold chooseCpu at made ⊢
  split at made <;> rename_i outcome <;> rw [outcome] at called
  · cases made
  · split at made
    · cases made
    · rename_i known
      rw [if_neg known]
      split at made <;> rename_i all
      · cases made
      · cases Except.ok.inj made
        have waits := place_waiting (called.agrees agrees) (by simp) (congrArg Prod.fst all)
        rw [all] at waits
        exact waits

end LoadableSched.SchedClass
