import LoadableSched.Proofs.Class.Conserving
import LoadableSched.Proofs.Class.Departing
import LoadableSched.Proofs.Policy.Directing

/-!
A processor as it is found: the task that it runs, its own line and its flag. Under a policy that gives tasks to
idle processors alone most of what the class does leaves it as it is.
-/

namespace LoadableSched

namespace Queues

variable {q : Queues}

theorem remove_idle (q : Queues) (pid : Pid) : (q.remove pid).2.idle = q.idle := by
  unfold remove
  split
  · rfl
  · split <;> rfl

theorem remove_ownLine (sound : q.WellFormed) (distinct : q.waiting.Nodup) (pid : Pid) (cpu : CpuId) :
    (q.remove pid).2.ownLine cpu = (q.ownLine cpu).erase pid := by
  have left : pid ∉ (q.remove pid).2.ownLine cpu := fun still =>
    not_waiting_of_remove sound distinct pid (List.mem_append_right _ (mem_waiting_of_ownLine still))
  have either : (q.remove pid).2.ownLine cpu = q.ownLine cpu ∨
      (q.remove pid).2.ownLine cpu = (q.ownLine cpu).erase pid := by
    unfold remove
    split
    · exact .inl rfl
    · split
      · rename_i home found
        obtain ⟨inside, _⟩ := List.findIdx?_eq_some_iff_getElem.mp found
        rw [ownLine_modify inside]
        split
        · exact .inr rfl
        · exact .inl rfl
      · exact .inl rfl
  rcases either with same | erased
  · rw [same] at left ⊢
    exact (List.erase_of_not_mem left).symm
  · exact erased

end Queues

namespace SchedClass

variable {ω α : Type} {c d e : SchedClass ω} {policy : Policy ω} {order : List QueueId}

/-- A processor as it is found: the task that it runs, the tasks in its own line, and its flag. -/
structure Station where
  current : Option Pid
  line : List Pid
  idle : Bool

def station (c : SchedClass ω) (cpu : CpuId) : Station :=
  ⟨c.current? cpu, c.queues.ownLine cpu, c.queues.isIdle cpu⟩

theorem station_eq_ite {cpu other : CpuId} {current : Option Pid} {line : List Pid} {idle : Bool}
    (runs : d.current? other = if other = cpu then current else c.current? other)
    (own : d.queues.ownLine other = if other = cpu then line else c.queues.ownLine other)
    (flag : d.queues.isIdle other = if other = cpu then idle else c.queues.isIdle other) :
    d.station other = if other = cpu then ⟨current, line, idle⟩ else c.station other := by
  rw [station, runs, own, flag]
  split <;> rfl

theorem eq_ite_self {α : Type} (f : CpuId → α) (cpu other : CpuId) :
    f other = if other = cpu then f cpu else f other := by
  split
  · rename_i here
    rw [here]
  · rfl

def Rests (c d : SchedClass ω) : Prop := ∀ cpu, d.station cpu = c.station cpu

namespace Rests

theorem refl (c : SchedClass ω) : c.Rests c := fun _ => rfl

theorem trans (first : c.Rests d) (later : d.Rests e) : c.Rests e := fun cpu =>
  (later cpu).trans (first cpu)

theorem of_same (current : d.current = c.current) (locals : d.queues.locals = c.queues.locals)
    (idle : d.queues.idle = c.queues.idle) : c.Rests d := by
  intro cpu
  simp only [station, current?, Queues.ownLine, Queues.isIdle, current, locals, idle]

theorem of_aloof {body : Callback ω α} (aloof : body.Aloof) (cpu : CpuId) :
    c.Rests (c.resume (c.invoke cpu body).2) :=
  of_same rfl (aloof.locals _ _ _) (aloof.idle _ _ _)

theorem of_call {body : Callback ω α} (aloof : body.Aloof) (cpu : CpuId) :
    c.Rests (c.call cpu body).2 := by
  unfold call
  dsimp only
  split <;> exact of_aloof aloof cpu

end Rests

theorem Agrees.tidy {loose : List Pid} (agrees : c.Agrees loose) : c.Tidy :=
  ⟨agrees.queues, agrees.tasks⟩

theorem Tidy.rests (tidy : c.Tidy) : c.Rests c.requeueOrphans :=
  have migrates := requeueOrphans_migrates tidy
  .of_same migrates.current migrates.own migrates.idle

theorem Tidy.abort_rests (tidy : c.Tidy) (reason : ClassError) : c.Rests (c.abort reason) := by
  unfold abort
  split
  · exact .refl c
  · exact Tidy.rests (c := { c with policy := none }) ⟨tidy.queues, tidy.tasks⟩

theorem Tidy.enqueueGlobal_rests (tidy : c.Tidy) {pid : Pid} (made : c.enqueueGlobal pid = .ok d) :
    c.Rests d := by
  obtain ⟨_, same, _, locals, idle, current⟩ := enqueueGlobal_slots tidy.queues.global pid
  cases Except.ok.inj (made.symm.trans same)
  exact .of_same current locals idle

theorem placeOne_idle {cpu : CpuId} {placed : List Pid} {p : Placement}
    (made : c.placeOne cpu placed p = .ok d) : d.queues.idle = c.queues.idle := by
  obtain ⟨_, _, _, r, pushed, rfl⟩ := placeOne_inv made
  unfold Queues.push at pushed
  split at pushed
  · split at pushed
    · cases Except.ok.inj pushed
      rfl
    · cases pushed
  · split at pushed
    · cases Except.ok.inj pushed
      rfl
    · cases pushed

theorem place_rests (cpu : CpuId) (placed : List Pid) {placements : List Placement}
    (shared : ∀ p ∈ placements, p.queue ≠ localQueue) :
    c.Rests (c.place cpu placed placements).2 := by
  induction placements generalizing c placed with
  | nil => exact .refl c
  | cons p rest ih =>
    unfold place
    split
    · exact .refl c
    · rename_i d made
      have first : c.Rests d := by
        intro other
        have own := (placeOne_puts made).own other
        have elsewhere : ([p].filter (·.queue = localQueue)) = [] := by
          simp [shared p List.mem_cons_self]
        rw [elsewhere, List.map_nil, ite_self, List.append_nil] at own
        have current : d.current = c.current := by rw [placeOne_retains made]
        simp only [station, current?, Queues.isIdle, own, current, placeOne_idle made]
      exact first.trans (ih _ fun q member => shared q (List.mem_cons_of_mem _ member))

/-! What the callbacks do at the processors. -/

section

variable (directs : policy.Directs order)

include directs

theorem enqueueWith_rests (tidy : c.Tidy) (stocks : c.queues.Stocks order) (pid : Pid) (cpu : CpuId)
    (flags : UInt64) : c.Rests (c.enqueueWith policy pid cpu flags) := by
  unfold enqueueWith
  split
  · exact .refl c
  rename_i task _
  obtain ⟨queue, member, slice, asks⟩ :=
    directs.drains.conforms.enqueue cpu c.clock c.queues c.memory task flags stocks
  have called : c.Rests (c.resume (c.invoke cpu (policy.enqueue task flags)).2) :=
    .of_aloof (directs.enqueue task flags) cpu
  have clean := tidy.call cpu (policy.enqueue task flags)
  simp only [callAndPlace, call_eq (c := c) asks]
  generalize c.resume (c.invoke cpu (policy.enqueue task flags)).2 = d at *
  have apart : ∀ p ∈ [(⟨task.pid, queue, slice⟩ : Placement)], p.queue ≠ localQueue := fun p one =>
    List.mem_singleton.mp one ▸ directs.drains.conforms.shared queue member
  have placed := called.trans (place_rests cpu [] apart)
  have settled := clean.place cpu [] [⟨task.pid, queue, slice⟩]
  split <;> rename_i outcome <;> rw [outcome] at placed settled
  · exact placed.trans (settled.abort_rests _)
  · split
    · exact placed
    · exact placed.trans (settled.abort_rests _)

end

theorem enable_rests (directs : ∀ policy, c.policy = some policy → policy.Directs order) (tidy : c.Tidy)
    (pid : Pid) : c.Rests (c.enable pid) := by
  unfold enable enableWith
  split
  · exact .refl c
  rename_i policy active
  split
  · exact .refl c
  rename_i task _
  have called := Rests.of_call (c := c) ((directs policy active).enable task) task.lastCpu
  have clean := tidy.call task.lastCpu (policy.enable task)
  unfold call at *
  dsimp only at *
  split at called
  · exact called.trans (clean.abort_rests _)
  · exact called

theorem enableAll_rests (directs : ∀ policy, c.policy = some policy → policy.Directs order)
    (agrees : c.Agrees []) (pids : List Pid) : c.Rests (pids.foldl enable c) := by
  induction pids generalizing c with
  | nil => exact .refl c
  | cons pid rest ih =>
    obtain ⟨_, between⟩ := enable_serves agrees pid
    refine (enable_rests directs agrees.tidy pid).trans (ih (fun policy active => ?_) between)
    rcases (c.enable_leads pid).hears.policy_or with same | gone
    · exact directs policy (same.symm.trans active)
    · rw [gone] at active
      cases active

section

variable (steady : c.Steady)

include steady

theorem install_rests (free : c.policy = none) (directs : policy.Directs order) :
    c.Rests (c.install policy).2 := by
  let entered : SchedClass ω := { c with policy := some policy }
  have same : entered.Agrees [] := steady.agrees.congr rfl steady.agrees.tasks fun _ => rfl
  obtain ⟨code, asks, _⟩ := directs.drains.conforms.init c.clock c.queues c.memory
    (steady.healthy.stocked.vacant free)
  have introduced := introduce_accepted (c := entered) code asks
  obtain ⟨after, _⟩ := called_agrees same 0 policy.init
  have called : entered.Rests (entered.resume (entered.invoke 0 policy.init).2) :=
    .of_aloof directs.init 0
  unfold install
  simp only [free]
  rw [introduced]
  have inPlace : ∀ other, (entered.resume (entered.invoke 0 policy.init).2).policy = some other →
      other.Directs order := by
    rintro other ⟨⟩
    exact directs
  exact called.trans (enableAll_rests inPlace after _)

theorem uninstall_rests : c.Rests c.uninstall.2 := by
  unfold uninstall
  split
  · exact .refl c
  · exact Tidy.rests (c := { c with policy := none }) ⟨steady.agrees.queues, steady.agrees.tasks⟩

end

section

variable (directs : ∀ policy, c.policy = some policy → policy.Directs order)

include directs

theorem addTask_rests (steady : c.Steady) (task : Task) : c.Rests (c.addTask task).2 := by
  unfold addTask
  split
  · exact .refl c
  · rename_i fresh
    obtain ⟨added, _, _⟩ := register_spec steady.agrees steady.backed fresh
    have entered : c.Rests (c.register task) := fun _ => rfl
    exact entered.trans (enable_rests (c := c.register task) directs added.tidy task.pid)

variable (stocks : c.queues.Stocks order)

include stocks

theorem enqueue_rests (tidy : c.Tidy) (pid : Pid) (flags : UInt64) :
    c.Rests (c.enqueue pid flags).2 := by
  unfold enqueue
  split
  · exact .refl c
  split
  · exact .refl c
  have resting : c.Rests (c.setState pid .queued) := fun _ => rfl
  have ready : (c.setState pid .queued).Tidy := ⟨tidy.queues, tidy.tasks.modify _ _⟩
  dsimp only
  split
  · split
    · exact resting
    · rename_i made
      exact resting.trans (ready.enqueueGlobal_rests made)
  · rename_i policy active
    exact resting.trans (enqueueWith_rests (directs policy active) ready stocks _ _ _)

theorem settleStopped_rests (tidy : c.Tidy) (cpu : CpuId) (pid : Pid) (runnable : Bool) :
    c.Rests (c.settleStopped cpu pid runnable).2 := by
  unfold settleStopped
  split
  · exact .refl c
  split
  · exact fun _ => rfl
  have resting : c.Rests (c.setState pid .queued) := fun _ => rfl
  have ready : (c.setState pid .queued).Tidy := ⟨tidy.queues, tidy.tasks.modify _ _⟩
  dsimp only
  split
  · rename_i policy active
    exact resting.trans (enqueueWith_rests (directs policy active) ready stocks _ _ _)
  · split
    · exact resting
    · rename_i made
      exact resting.trans (ready.enqueueGlobal_rests made)

theorem halt_rests (cpu : CpuId) (task : Task) (runnable : Bool) :
    c.Rests (c.halt cpu task runnable) := by
  unfold halt
  split
  · exact .refl c
  rename_i policy active
  have asks := (directs policy active).drains.conforms.stopping cpu c.clock c.queues c.memory task
    runnable stocks
  simp only [consult, callAndPlace, call_eq (c := c) asks, place]
  exact .of_aloof ((directs policy active).stopping task runnable) cpu

end

end SchedClass

end LoadableSched
