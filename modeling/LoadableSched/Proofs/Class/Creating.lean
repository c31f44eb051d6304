import LoadableSched.Proofs.Class.Conserving
import LoadableSched.Proofs.Naming

/-!
The queues of a policy are made while it is in place and destroyed when it goes, whichever way it goes. So the
next one finds only the global queue, and the number of each queue that it asks for depends on what it has asked
for itself.
-/

namespace LoadableSched.SchedClass

variable {ω : Type} {c d e : SchedClass ω}

def KeepsNames (c d : SchedClass ω) : Prop := c.queues.SameNames d.queues

namespace KeepsNames

theorem refl (c : SchedClass ω) : c.KeepsNames c := Queues.SameNames.refl _

theorem trans (first : c.KeepsNames d) (later : d.KeepsNames e) : c.KeepsNames e :=
  Queues.SameNames.trans first later

theorem enqueueGlobal {pid : Pid} (made : c.enqueueGlobal pid = .ok d) : c.KeepsNames d := by
  obtain ⟨r, pushed, rfl⟩ := enqueueGlobal_inv made
  exact .push pushed

theorem enqueueAllGlobal (c : SchedClass ω) (pids : List Pid) : c.KeepsNames (c.enqueueAllGlobal pids) :=
  enqueueAllGlobal_closure refl trans enqueueGlobal c pids

theorem place (c : SchedClass ω) (cpu : CpuId) (placed : List Pid) (placements : List Placement) :
    c.KeepsNames (c.place cpu placed placements).2 := by
  apply place_closure refl trans
  intro c d _ _ _ made
  obtain ⟨_, _, _, r, pushed, rfl⟩ := placeOne_inv made
  exact Queues.SameNames.push pushed

theorem takeNext (c : SchedClass ω) (cpu : CpuId) : c.KeepsNames (c.takeNext cpu).2 := by
  unfold SchedClass.takeNext
  split
  · rename_i popped
    obtain ⟨_, rfl⟩ := Prod.mk.inj popped
    exact ⟨fun _ => rfl, rfl⟩
  · split
    · exact refl c
    · rename_i popped
      exact Queues.SameNames.pop popped

theorem removeTask (c : SchedClass ω) (pid : Pid) : c.KeepsNames (c.removeTask pid).2 := by
  unfold SchedClass.removeTask
  split
  · exact refl c
  · dsimp only
    split
    · exact refl c
    · exact Queues.SameNames.remove _ pid
    · exact ⟨fun _ => rfl, rfl⟩

theorem housekeeping : Housekeeping (KeepsNames (ω := ω)) where
  refl := refl
  trans := trans
  setState c _ _ := refl c
  mapTask c _ _ := refl c
  occupy _ _ _ := ⟨fun _ => rfl, rfl⟩
  engage c _ _ := refl c
  vacate _ _ _ := ⟨fun _ => rfl, rfl⟩
  setIdle _ _ _ := ⟨fun _ => rfl, rfl⟩
  register c _ := refl c
  enqueueGlobal := enqueueGlobal
  takeNext := takeNext
  removeTask := removeTask

end KeepsNames

theorem requeueOrphans_named (named : c.queues.Named) : c.requeueOrphans.queues.Named :=
  named.destroyed.of_names (KeepsNames.enqueueAllGlobal c.orphaned _)

/-! What a callback leaves. -/

namespace Inquiry

variable {i : Inquiry ω} (named : i.before.queues.Named) (spare : ∀ a ∈ i.creations, a.2 = -1 → a.1.Spare)

include named spare

theorem creations_named : ∀ a ∈ i.creations, a.1.Named :=
  (Callback.run_named _ _ (i.policy.answer i.matter) named spare).2

theorem reached_named : i.reached.queues.Named := by
  have called : i.called.queues.Named := (Callback.run_named _ _ (i.policy.answer i.matter) named spare).1
  unfold reached
  cases i.heeded with
  | flawed reason first heeds => exact heeds ▸ called
  | placed proper accepted other heeds => exact heeds ▸ called.of_names (KeepsNames.place _ _ _ _)
  | enabled proper accepted enables pid record heeds => exact heeds ▸ called

theorem after_named : i.after.queues.Named := by
  have reached := reached_named named spare
  rw [after_eq]
  split
  · exact reached
  · split
    · exact requeueOrphans_named reached
    · unfold abort
      split
      · exact reached
      · exact requeueOrphans_named reached

end Inquiry

theorem Chain.named {is : List (Inquiry ω)} (chain : Chain KeepsNames c is d) (named : c.queues.Named)
    (spare : ∀ i ∈ is, ∀ a ∈ i.creations, a.2 = -1 → a.1.Spare) :
    d.queues.Named ∧ ∀ i ∈ is, i.before.queues.Named ∧ i.matter ≠ .init := by
  induction chain with
  | still kept => exact ⟨named.of_names kept, fun _ member => absurd member List.not_mem_nil⟩
  | asks kept active later chain ih =>
    obtain ⟨first, rest⟩ := List.forall_mem_cons.mp spare
    have before := named.of_names kept
    obtain ⟨after, all⟩ := ih (Inquiry.after_named before first) rest
    exact ⟨after, List.forall_mem_cons.mpr ⟨⟨before, later⟩, all⟩⟩

/-! Operations, and runs of them. -/

theorem step_named (named : c.queues.Named) {op : Operation ω}
    (spare : ∀ i ∈ c.inquiries op, ∀ a ∈ i.creations, a.2 = -1 → a.1.Spare) :
    (c.step op).queues.Named ∧ ∀ i ∈ c.inquiries op, i.before.queues.Named ∧
      (i.matter = .init → c.policy = none ∧ i.before.queues = c.queues) := by
  by_cases spares : op.SparesPolicy
  · have moved : ∀ delta, op = .advanceClock delta → c.KeepsNames (c.step op) := fun _ same => same ▸ .refl c
    have remembered : ∀ m, op = .setMemory m → c.KeepsNames (c.step op) := fun _ same => same ▸ .refl c
    obtain ⟨after, all⟩ := (KeepsNames.housekeeping.step_chain c spares moved remembered).named named spare
    exact ⟨after, fun i member => ⟨(all i member).1, fun first => absurd first (all i member).2⟩⟩
  cases op with
  | install policy =>
    cases busy : c.policy with
    | some active =>
      have same : c.step (.install policy) = c := congrArg Prod.snd (install_busy busy)
      have nothing : c.inquiries (.install policy) = [] := by simp [inquiries, installInquiries, busy]
      rw [same, nothing]
      exact ⟨named, fun _ member => absurd member List.not_mem_nil⟩
    | none =>
      obtain ⟨rest, d, split, chain, ends⟩ := KeepsNames.housekeeping.install_chain busy policy
      rw [split] at spare ⊢
      obtain ⟨first, later⟩ := List.forall_mem_cons.mp spare
      have entered := Inquiry.after_named (i := ⟨{ c with policy := some policy }, policy, .init⟩) named first
      obtain ⟨after, all⟩ := chain.named entered later
      constructor
      · rcases ends with same | same <;> rw [same] <;> exact after
      · refine List.forall_mem_cons.mpr ⟨⟨named, fun _ => ⟨rfl, rfl⟩⟩, fun i member => ?_⟩
        exact ⟨(all i member).1, fun first => absurd first (all i member).2⟩
  | uninstall =>
    refine ⟨?_, fun i member => absurd member List.not_mem_nil⟩
    simp only [step, uninstall]
    split
    · exact named
    · exact requeueOrphans_named named
  | addTask | removeTask | wake | enqueue | pickNext | stop | advanceClock | setMemory =>
    exact absurd trivial spares

theorem steps_named (named : c.queues.Named) (vacant : c.Vacant) {ops : List (Operation ω)}
    (spare : ∀ i ∈ c.allInquiries ops, ∀ a ∈ i.creations, a.2 = -1 → a.1.Spare) :
    (c.steps ops).queues.Named ∧ ∀ i ∈ c.allInquiries ops, i.before.queues.Named ∧
      (i.matter = .init → i.before.queues.OnlyBuiltin) := by
  induction ops generalizing c with
  | nil => exact ⟨named, fun _ member => absurd member List.not_mem_nil⟩
  | cons op rest ih =>
    obtain ⟨first, later⟩ := List.forall_mem_append.mp spare
    obtain ⟨after, now⟩ := step_named named first
    obtain ⟨last, all⟩ := ih after (step_vacant vacant op) later
    refine ⟨last, List.forall_mem_append.mpr ⟨fun i member => ?_, all⟩⟩
    obtain ⟨before, opens⟩ := now i member
    refine ⟨before, fun init => ?_⟩
    obtain ⟨free, same⟩ := opens init
    exact same ▸ vacant free

/-- Whatever the policies do, with their queues and otherwise: there is always the global queue, a policy finds
no other one when it comes and leaves no other one when it goes, and the numbers of its own are below `2 ^ 63`.
It is given the least free number if it asks for any and the number that it asks for if that is free, and a
refusal changes nothing. The one thing assumed is that nobody asks for a free number when there is none, as it
could be only beside `2 ^ 63` queues. -/
theorem policies_find_no_queues_of_others (cpus : Nat) (memory : ω) (ops : List (Operation ω))
    (spare : ∀ i ∈ (new cpus memory).allInquiries ops, ∀ a ∈ i.creations, a.2 = -1 → a.1.Spare) :
    let c := (new cpus memory).steps ops
    (c.queues.shared.contains globalQueue = true ∧
      ∀ n, c.queues.shared.contains n = true → n = globalQueue ∨ n.toNat < 2 ^ 63) ∧
    (c.policy = none → ∀ n, c.queues.shared.contains n = true ↔ n = globalQueue) ∧
    ∀ i ∈ (new cpus memory).allInquiries ops,
      (i.matter = .init → ∀ n, i.before.queues.shared.contains n = true ↔ n = globalQueue) ∧
      ∀ a ∈ i.creations, a.1.Allots a.2 := by
  intro c
  have start : (new cpus memory).queues.Named := Queues.new_named _
  have vacant : c.Vacant := steps_vacant (new_vacant cpus memory) ops
  obtain ⟨named, all⟩ := steps_named start (new_vacant cpus memory) spare
  refine ⟨⟨named.global, named.low⟩, fun free => named.only_global (vacant free), fun i member => ?_⟩
  obtain ⟨before, opens⟩ := all i member
  refine ⟨fun first => before.only_global (opens first), fun a asked => ?_⟩
  exact (Inquiry.creations_named before (spare i member) a asked).allots (spare i member a asked)

/-- A policy that asks for queues of both kinds, twice for the same one and once for an impossible one. -/
def hoarder : Policy Unit where
  name := "hoarder"
  init := do
    let _ ← Callback.create 1
    let _ ← Callback.create (-1)
    let _ ← Callback.create (-1)
    let _ ← Callback.create 2
    let _ ← Callback.create (-7)
    return 0
  selectCpu _ previous _ := .done previous
  enqueue _ _ := .done ()
  dispatch _ _ := .done ()

def hoarderRun : List (Operation Unit) :=
  [.install hoarder, .addTask { pid := 1 }, .wake 1 0, .install hoarder, .uninstall]

theorem hoarder_finds_no_queues :
    (((new 1 ()).allInquiries hoarderRun).flatMap fun i => i.creations.map fun a => (a.1.create a.2).1.toOption) =
      [some 1, some 0, some 2, none, none, some 1, some 0, some 2, none, none] ∧
    ∀ n, ((new 1 ()).steps hoarderRun).queues.shared.contains n = true ↔ n = globalQueue := by
  have few : ∀ i ∈ (new 1 ()).allInquiries hoarderRun, ∀ a ∈ i.creations, a.1.shared.size < 2 ^ 63 := by
    decide
  have spare : ∀ i ∈ (new 1 ()).allInquiries hoarderRun, ∀ a ∈ i.creations, a.2 = -1 → a.1.Spare :=
    fun i member a asked _ => Queues.spare_of_size (few i member a asked)
  exact ⟨by decide, (policies_find_no_queues_of_others 1 () hoarderRun spare).2.1 rfl⟩

end LoadableSched.SchedClass
