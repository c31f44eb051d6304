import LoadableSched.Proofs.Class.Conforming
import LoadableSched.Proofs.Class.Consulting

/-!
What most of the class leaves alone in the record of a task: its number and its last processor. Callbacks, the
placements that they ask for and the removal of a policy write neither.
-/

namespace LoadableSched

def Slot.tag (slot : Slot) : Pid × CpuId := (slot.task.pid, slot.task.lastCpu)

theorem Table.map_get?_modify {κ α β : Type} [DecidableEq κ] (t : Table κ α) (k j : κ) {f : α → α}
    {g : α → β} (same : ∀ v, g (f v) = g v) : ((t.modify k f).get? j).map g = (t.get? j).map g := by
  rw [Table.get?_modify]
  split
  · rw [Option.map_map]
    congr 1
    exact funext same
  · rfl

theorem Queues.remove_cpus (q : Queues) (pid : Pid) : (q.remove pid).2.cpus = q.cpus := by
  unfold remove
  split
  · rfl
  · split
    · simp [cpus]
    · rfl

namespace SchedClass

variable {ω α : Type} {c d e : SchedClass ω} {cpu : CpuId} {pid : Pid} {policy : Policy ω}

def tag? (c : SchedClass ω) (pid : Pid) : Option (Pid × CpuId) := (c.tasks.get? pid).map Slot.tag

def Fits (c : SchedClass ω) (pid : Pid) : Prop :=
  ∀ slot, c.tasks.get? pid = some slot → slot.task.pid = pid ∧ slot.task.lastCpu < c.cpus

theorem fits_congr (cpus : d.cpus = c.cpus) (same : d.tag? pid = c.tag? pid) : d.Fits pid ↔ c.Fits pid := by
  unfold Fits
  rw [cpus]
  unfold tag? at same
  cases before : c.tasks.get? pid with
  | none =>
    rw [before, Option.map_none, Option.map_eq_none_iff] at same
    simp [same]
  | some slot =>
    rw [before, Option.map_some, Option.map_eq_some_iff] at same
    obtain ⟨slot', after, equal⟩ := same
    obtain ⟨number, processor⟩ := Prod.mk.inj equal
    simp [after, number, processor]

/-- From `c` to `d` each registered task keeps its number and its last processor. -/
structure Copies (c d : SchedClass ω) : Prop where
  cpus : d.cpus = c.cpus
  tag : ∀ pid, d.tag? pid = c.tag? pid

namespace Copies

theorem refl (c : SchedClass ω) : c.Copies c := ⟨rfl, fun _ => rfl⟩

theorem trans (first : c.Copies d) (later : d.Copies e) : c.Copies e where
  cpus := later.cpus.trans first.cpus
  tag pid := (later.tag pid).trans (first.tag pid)

theorem fits_iff (copies : c.Copies d) (pid : Pid) : d.Fits pid ↔ c.Fits pid :=
  fits_congr copies.cpus (copies.tag pid)

theorem recorded_iff (copies : c.Copies d) : d.Recorded ↔ c.Recorded :=
  forall_congr' copies.fits_iff

theorem of_tasks (cpus : d.cpus = c.cpus) (tasks : d.tasks = c.tasks) : c.Copies d where
  cpus
  tag pid := by rw [tag?, tag?, tasks]

theorem modify {q : Queues} (cpus : q.cpus = c.cpus) (pid : Pid) {f : Slot → Slot}
    (same : ∀ slot, (f slot).tag = slot.tag) :
    c.Copies { c with queues := q, tasks := c.tasks.modify pid f } where
  cpus
  tag other := Table.map_get?_modify c.tasks pid other same

theorem setState (c : SchedClass ω) (pid : Pid) (state : RunState) : c.Copies (c.setState pid state) :=
  modify rfl pid fun _ => rfl

theorem resume (c : SchedClass ω) (cpu : CpuId) (body : Callback ω α) :
    c.Copies (c.resume (c.invoke cpu body).2) := of_tasks (c.invoke_cpus cpu body) rfl

theorem place (c : SchedClass ω) (cpu : CpuId) (placed : List Pid) (placements : List Placement) :
    c.Copies (c.place cpu placed placements).2 := by
  apply place_closure refl trans
  intro c d _ _ p made
  obtain ⟨_, _, _, r, pushed, rfl⟩ := placeOne_inv made
  exact modify (Queues.push_cpus pushed) p.pid fun _ => rfl

theorem enqueueGlobal (made : c.enqueueGlobal pid = .ok d) : c.Copies d := by
  obtain ⟨r, pushed, rfl⟩ := enqueueGlobal_inv made
  exact modify (Queues.push_cpus pushed) pid fun _ => rfl

theorem enqueueAllGlobal (c : SchedClass ω) (pids : List Pid) : c.Copies (c.enqueueAllGlobal pids) :=
  enqueueAllGlobal_closure refl trans enqueueGlobal c pids

theorem requeueOrphans (c : SchedClass ω) : c.Copies c.requeueOrphans := by
  have orphaned : c.Copies c.orphaned := of_tasks rfl rfl
  exact orphaned.trans (enqueueAllGlobal _ _)

theorem unseat (c : SchedClass ω) : c.Copies (SchedClass.requeueOrphans { c with policy := none }) := by
  have unseated : c.Copies { c with policy := none } := of_tasks rfl rfl
  exact unseated.trans (requeueOrphans _)

theorem abort (c : SchedClass ω) (reason : ClassError) : c.Copies (c.abort reason) := by
  unfold SchedClass.abort
  split
  · exact refl c
  · exact (unseat c).trans (of_tasks rfl rfl)

theorem takeNext (c : SchedClass ω) (cpu : CpuId) : c.Copies (c.takeNext cpu).2 := by
  unfold SchedClass.takeNext
  split
  · rename_i popped
    obtain ⟨_, rfl⟩ := Prod.mk.inj popped
    exact of_tasks (by simp [SchedClass.cpus, Queues.cpus]) rfl
  · split
    · exact refl c
    · rename_i popped
      unfold Queues.pop at popped
      split at popped
      · cases popped
      · cases popped
        exact of_tasks rfl rfl

theorem callAndPlace (c : SchedClass ω) (cpu : CpuId) (body : Callback ω α) :
    c.Copies (c.callAndPlace cpu body).2 := by
  have called : c.Copies (c.call cpu body).2 := by
    unfold call
    dsimp only
    split <;> exact .resume c cpu body
  unfold SchedClass.callAndPlace
  split <;> rename_i outcome <;> rw [outcome] at called
  · exact called
  · exact called.trans (.place _ _ _ _)

theorem consult (c : SchedClass ω) (cpu : CpuId) (body : Callback ω α) :
    c.Copies (c.consult cpu body) := by
  have made := callAndPlace c cpu body
  unfold SchedClass.consult
  split <;> rename_i outcome <;> rw [outcome] at made
  · exact made.trans (.abort _ _)
  · exact made

theorem enqueueWith (c : SchedClass ω) (policy : Policy ω) (pid : Pid) (cpu : CpuId)
    (flags : UInt64) : c.Copies (c.enqueueWith policy pid cpu flags) := by
  unfold SchedClass.enqueueWith
  split
  · exact refl c
  · rename_i task _
    have made := callAndPlace c cpu (policy.enqueue task flags)
    split <;> rename_i outcome <;> rw [outcome] at made
    · exact made.trans (.abort _ _)
    · split
      · exact made
      · exact made.trans (.abort _ _)

theorem refill (c : SchedClass ω) (cpu : CpuId) : c.Copies (c.refill cpu) := by
  unfold SchedClass.refill
  split
  · exact refl c
  · split
    · exact refl c
    · exact .consult c cpu _

theorem start (c : SchedClass ω) (cpu : CpuId) (task : Task) : c.Copies (c.start cpu task) := by
  unfold SchedClass.start
  split
  · exact refl c
  · exact .consult c cpu _

theorem halt (c : SchedClass ω) (cpu : CpuId) (task : Task) (runnable : Bool) :
    c.Copies (c.halt cpu task runnable) := by
  unfold SchedClass.halt
  split
  · exact refl c
  · exact .consult c cpu _

end Copies

/-! What the class makes of a callback. -/

namespace Inquiry

variable {i : Inquiry ω}

theorem reached_copies (other : ¬ i.Enables ∨ i.failure ≠ none) : i.before.Copies i.reached := by
  have called : i.before.Copies i.called := .resume _ _ _
  unfold reached
  cases i.heeded with
  | flawed reason first heeds => exact heeds ▸ called
  | placed proper accepted other heeds => exact heeds ▸ called.trans (.place _ _ _ _)
  | enabled proper accepted enables pid record heeds =>
    rcases other with other | failed
    · exact absurd enables other
    · exact absurd (congrArg Prod.fst heeds) failed

theorem after_copies (other : ¬ i.Enables ∨ i.failure ≠ none) : i.before.Copies i.after := by
  have reached := reached_copies other
  rw [after_eq]
  split
  · exact reached
  · split
    · exact reached.trans (.unseat _)
    · exact reached.trans (.abort _ _)

end Inquiry

theorem chooseCpu_inv {task : Task} {flags : UInt64} {placed : List Pid}
    (chosen : c.chooseCpu policy task flags = (.ok (cpu, placed), d)) : c.Copies d ∧ cpu < c.cpus := by
  constructor
  · have copies := Inquiry.reached_copies (i := ⟨c, policy, .selectCpu task flags⟩) (.inl (by simp [Inquiry.Enables]))
    have reached : c.Copies (c.chooseCpu policy task flags).2 := copies
    rwa [chosen] at reached
  · unfold chooseCpu call at chosen
    dsimp only at chosen
    split at chosen <;> rename_i outcome
    · cases chosen
    · split at outcome
      · cases outcome
      · split at chosen
        · cases chosen
        · rename_i inside
          split at chosen <;> cases chosen
          cases outcome
          rw [invoke_cpus] at inside
          exact Nat.lt_of_not_le inside

end SchedClass

end LoadableSched
