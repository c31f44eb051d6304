import LoadableSched.Proofs.Class.Installing
import LoadableSched.Proofs.Class.Standing
import Mathlib.Data.List.Chain

/-!
Runs in which policies come and go: what holds while there is none. No queue of a policy is left then,
and nothing is heard until a policy is installed.
-/

namespace LoadableSched.SchedClass

variable {ω : Type} {c d : SchedClass ω} {xs : List Event}

def Vacant (c : SchedClass ω) : Prop := c.policy = none → c.queues.OnlyBuiltin

theorem Hears.vacant (h : c.Hears xs d) (vacant : c.Vacant) : d.Vacant := by
  intro none
  cases h with
  | stays policy exit silent fine =>
    have before := policy.symm.trans none
    exact (silent before).2.onlyBuiltin (vacant before)
  | leaves p early last reason active gone cleared => exact cleared

theorem install_hears (free : c.policy = none) (policy : Policy ω) :
    ∃ event rest, c.installHeard policy = event :: rest ∧ event.occasion = .init ∧
      (event.failure ≠ none → rest = [] ∧ (c.install policy).2.policy = none ∧
        (c.install policy).2.queues.OnlyBuiltin) ∧
      (event.failure = none → ∃ d : SchedClass ω, d.policy = some policy ∧
        ∃ e, d.Hears rest e ∧ (c.install policy).2 = { e with exit := none }) := by
  obtain ⟨active, busy, _⟩ | ⟨_, reason, d, entered, made, heard⟩ | ⟨_, d, entered, made, heard⟩ :=
    c.install_cases policy
  · rw [free] at busy
    cases busy
  · refine ⟨_, _, heard, rfl, fun _ => ⟨rfl, ?_, ?_⟩, by simp⟩
    · rw [made]
      exact (requeueOrphans_retains { d with policy := none }).policy
    · rw [made]
      exact requeueOrphans_onlyBuiltin _
  · refine ⟨_, _, heard, rfl, by simp, fun _ => ⟨d, ?_, _, enableAll_hears d _, by rw [made]⟩⟩
    have retains := introduce_retains { c with policy := some policy } policy
    rw [entered] at retains
    exact retains.policy

theorem install_vacant (vacant : c.Vacant) (policy : Policy ω) : (c.install policy).2.Vacant := by
  cases active : c.policy with
  | some current =>
    rw [install_busy active]
    exact vacant
  | none =>
    obtain ⟨event, rest, _, _, refused, entered⟩ := install_hears active policy
    by_cases failed : event.failure = none
    · obtain ⟨d, there, e, heard, same⟩ := entered failed
      rw [same]
      have working : d.Vacant := by
        intro none
        rw [there] at none
        cases none
      exact heard.vacant working
    · exact fun _ => (refused failed).2.2

theorem uninstall_vacant (vacant : c.Vacant) : c.uninstall.2.Vacant := by
  unfold uninstall
  split
  · exact vacant
  · exact fun _ => requeueOrphans_onlyBuiltin _

theorem step_vacant (vacant : c.Vacant) (op : Operation ω) : (c.step op).Vacant := by
  cases op with
  | install policy => exact install_vacant vacant policy
  | uninstall => exact uninstall_vacant vacant
  | addTask | removeTask | wake | enqueue | pickNext | stop | advanceClock | setMemory =>
    exact (step_hears c (by trivial)).vacant vacant

theorem steps_vacant (vacant : c.Vacant) (ops : List (Operation ω)) : (c.steps ops).Vacant := by
  induction ops generalizing c with
  | nil => exact vacant
  | cons op rest ih => exact ih (step_vacant vacant op)

theorem new_vacant (cpus : Nat) (memory : ω) : (new cpus memory).Vacant :=
  (new_healthy cpus memory).stocked.vacant

/-! What is heard after a failure. -/

/-- After a failure the next thing to be heard is the first callback of a policy. -/
def Event.Precedes (event next : Event) : Prop := event.failure ≠ none → next.occasion = .init

theorem precede_of_fine {events : List Event} (fine : ∀ event ∈ events, event.failure = none) :
    events.IsChain Event.Precedes := by
  induction events with
  | nil => exact .nil
  | cons event rest ih =>
    refine .cons (ih fun next member => fine next (List.mem_cons_of_mem _ member)) ?_
    exact fun next _ failed => absurd (fine event List.mem_cons_self) failed

theorem Hears.chain (h : c.Hears xs d) : xs.IsChain Event.Precedes := by
  cases h with
  | stays policy exit silent fine => exact precede_of_fine fine
  | leaves p early last reason active gone cleared exit split fine failed =>
    rw [split]
    refine List.isChain_append.mpr ⟨precede_of_fine fine, .singleton _, ?_⟩
    exact fun event member next _ failed => absurd (fine event (List.mem_of_getLast? member)) failed

theorem step_chain (c : SchedClass ω) (op : Operation ω) :
    (c.heard op).IsChain Event.Precedes ∧
      ∀ event ∈ (c.heard op).getLast?, event.failure ≠ none → (c.step op).policy = none := by
  have spared : ∀ op : Operation ω, op.SparesPolicy → (c.heard op).IsChain Event.Precedes ∧
      ∀ event ∈ (c.heard op).getLast?, event.failure ≠ none → (c.step op).policy = none := by
    intro op spares
    have h := step_hears c spares
    exact ⟨h.chain, fun event last failed => h.policy_eq.2 ⟨event, List.mem_of_getLast? last, failed⟩⟩
  cases op with
  | install policy =>
    cases active : c.policy with
    | some current => simp [heard, inquiries, installInquiries, active]
    | none =>
      obtain ⟨event, rest, heard, _, refused, entered⟩ := install_hears active policy
      rw [installHeard] at heard
      simp only [heard, step]
      by_cases failed : event.failure = none
      · obtain ⟨d, _, e, later, same⟩ := entered failed
        refine ⟨later.chain.cons fun next _ bad => absurd failed bad, fun last member bad => ?_⟩
        rw [same]
        refine later.policy_eq.2 ⟨last, ?_, bad⟩
        rcases List.mem_cons.mp (List.mem_of_getLast? member) with rfl | there
        · exact absurd failed bad
        · exact there
      · obtain ⟨nothing, gone, _⟩ := refused failed
        rw [nothing]
        exact ⟨.singleton _, fun _ _ _ => gone⟩
  | uninstall => exact ⟨.nil, by simp [heard, inquiries]⟩
  | addTask | removeTask | wake | enqueue | pickNext | stop | advanceClock | setMemory =>
    exact spared _ trivial

theorem first_heard (gone : c.policy = none) (ops : List (Operation ω)) :
    ∀ event ∈ (c.allHeard ops).head?, event.occasion = .init := by
  induction ops generalizing c with
  | nil => simp [allHeard, allInquiries]
  | cons op rest ih =>
    rw [allHeard_cons]
    have spared : op.SparesPolicy →
        ∀ event ∈ (c.heard op ++ (c.step op).allHeard rest).head?, event.occasion = .init := by
      intro spares
      obtain ⟨nothing, still⟩ := (step_hears c spares).none_left gone
      rw [nothing, List.nil_append]
      exact ih still
    cases op with
    | install policy =>
      obtain ⟨first, later, heard, occasion, _⟩ := install_hears gone policy
      rw [installHeard] at heard
      simp [heard, occasion]
    | uninstall =>
      have same : c.step .uninstall = c := by simp [step, uninstall, gone]
      rw [same]
      exact ih gone
    | addTask | removeTask | wake | enqueue | pickNext | stop | advanceClock | setMemory =>
      exact spared trivial

/-- Over a whole run: once a policy was removed for a failure, none is called until one is installed. -/
theorem allHeard_chain (c : SchedClass ω) (ops : List (Operation ω)) :
    (c.allHeard ops).IsChain Event.Precedes := by
  induction ops generalizing c with
  | nil => exact .nil
  | cons op rest ih =>
    obtain ⟨within, leaves⟩ := c.step_chain op
    rw [allHeard_cons]
    refine List.isChain_append.mpr ⟨within, ih _, fun event last next first failed => ?_⟩
    exact first_heard (leaves event last failed) rest next first

end LoadableSched.SchedClass
