import LoadableSched.Host.Run
import LoadableSched.Proofs.Session.Unbinding

/-!
Bindings of schedulers on a host. A binding that goes takes the active policy along, whichever scheduler
that policy belongs to, and nothing else that a session does takes a policy away.
-/

namespace LoadableSched

theorem SchedClass.step_policy {ω : Type} (c : SchedClass ω) (op : Operation ω) :
    (c.step op).policy = c.policy ∨ c.policy = none ∨ (c.step op).policy = none := by
  by_cases spares : op.SparesPolicy
  · exact (step_hears c spares).policy_or.imp_right .inr
  · cases op with
    | install policy =>
      cases active : c.policy with
      | none => exact .inr (.inl rfl)
      | some current => exact .inl (by rw [step, install_busy active, active])
    | uninstall => exact .inr (.inr c.uninstall_policy)
    | addTask | removeTask | wake | enqueue | pickNext | stop | advanceClock | setMemory =>
      exact absurd trivial spares

namespace Host

variable {h : Host}

theorem dropSession_kernel (h : Host) (i : Nat) :
    (h.dropSession i).2.kernel =
      match h.session? i with
      | none => h.kernel
      | some s => (s.close h.kernel).2.2 := by
  unfold dropSession
  cases h.session? i <;> rfl

theorem load_kernel (h : Host) (image : Image) :
    (h.load image).2.kernel = (Extension.load h.kernel image).2 := by
  unfold load
  rcases Extension.load h.kernel image with ⟨_ | _, _⟩ <;> rfl

theorem after_orderly (orderly : h.kernel.Orderly) (event : Event) : (h.after event).kernel.Orderly := by
  cases event with
  | openSession id t => exact orderly
  | session i event =>
    simp only [after]
    split
    · exact orderly
    · exact Session.after_orderly orderly event
  | drop i =>
    simp only [after, dropSession_kernel]
    split
    · exact orderly
    · rename_i s _
      exact Session.Moves.orderly (Session.close_moves (fun _ => True) s h.kernel) orderly
  | load image =>
    simp only [after, load_kernel]
    exact orderly.load rfl
  | bind map policy => exact orderly.attachStructOps rfl
  | unbind link =>
    simp only [after]
    cases made : h.kernel.destroyLink link with
    | error e => exact orderly
    | ok k' => exact Kernel.Orderly.releaseIn orderly (h := .link link "") made
  | schedule op =>
    exact orderly.around ⟨fun a => by cases a <;> rfl, rfl, rfl, rfl, rfl, fun _ there => there⟩

theorem afterAll_orderly (orderly : h.kernel.Orderly) (events : List Event) :
    (h.afterAll events).kernel.Orderly := by
  induction events generalizing h with
  | nil => exact orderly
  | cons event rest ih => exact ih (after_orderly orderly event)

theorem new_orderly (cpus : Nat) (features : Features) (interfaces : List IfIndex) (files : FileTree)
    (settings : HostSettings) : (new cpus features interfaces files settings).kernel.Orderly where
  numbered _ _ present := by cases present
  registered _ _ there := by cases there
  apart _ _ _ _ _ there := by cases there
  disciplined _ _ present := by cases present

def Event.IsActivity : Event → Prop
  | .session _ (.workload ..) => True
  | .schedule _ => True
  | _ => False

theorem after_binds (orderly : h.kernel.Orderly) {event : Event} (calm : ¬ event.IsActivity) :
    h.kernel.Unbinds (h.after event).kernel ∨
      ∃ link, h.kernel.Installs (h.after event).kernel link := by
  cases event with
  | openSession id t => exact .inl (.refl _)
  | session i event =>
    simp only [after]
    split
    · exact .inl (.refl _)
    · refine Session.after_binds orderly event ?_
      rintro op spares rfl
      exact calm trivial
  | drop i =>
    simp only [after, dropSession_kernel]
    split
    · exact .inl (.refl _)
    · rename_i s _
      exact .inl (Session.Moves.unbinds (Session.close_moves (fun _ => True) s h.kernel) orderly)
  | load image =>
    simp only [after, load_kernel]
    exact .inl (.adds (Extension.load_adds _ _))
  | bind map policy =>
    simp only [after]
    rcases outcome : h.kernel.attachStructOps map policy with ⟨e | link, k'⟩
    · exact .inl (.refused outcome)
    · exact .inr ⟨link, .made orderly.numbered outcome⟩
  | unbind link =>
    simp only [after]
    cases made : h.kernel.destroyLink link with
    | error e => exact .inl (.refl _)
    | ok k' => exact .inl (.destroyLink made)
  | schedule op => exact absurd trivial calm

theorem activity_binds {event : Event} (active : event.IsActivity) :
    (∀ id, (h.after event).kernel.Binds id ↔ h.kernel.Binds id) ∧
      ((h.after event).kernel.sched.policy = h.kernel.sched.policy ∨ h.kernel.sched.policy = none ∨
        (h.after event).kernel.sched.policy = none) := by
  cases event with
  | schedule op => exact ⟨fun _ => .rfl, SchedClass.step_policy _ op⟩
  | session i event =>
    cases event with
    | workload op spares =>
      simp only [after]
      split
      · exact ⟨fun _ => .rfl, .inl rfl⟩
      · exact ⟨fun _ => .rfl, SchedClass.step_policy _ op⟩
    | _ => exact active.elim
  | openSession | drop | load | bind | unbind => exact active.elim

/-- The policy that came with a binding is still the active one: ever since that binding was made, it was
there and the policy too. -/
def StillActive (h : Host) (events : List Event) (link : LinkId) : Prop :=
  ∃ policy early event late, events = early ++ event :: late ∧
    ¬ (h.afterAll early).kernel.Binds link ∧
    ∀ since, since <+: late →
      (h.afterAll (early ++ event :: since)).kernel.Binds link ∧
        (h.afterAll (early ++ event :: since)).kernel.sched.policy = some policy

def Loses (h : Host) (event : Event) (link : LinkId) : Prop :=
  h.kernel.Binds link ∧ ¬ (h.after event).kernel.Binds link

/-- A binding that goes at an event takes a policy along only if it is the one that came with it. -/
def RemovesOwnOnly (h : Host) (events : List Event) (event : Event) : Prop :=
  let before := h.afterAll events
  let own := ∃ link, before.Loses event link ∧ h.StillActive events link
  (own → (before.after event).kernel.sched.policy = none) ∧
    (¬ own → (before.after event).kernel.sched.policy = before.kernel.sched.policy)

/-- What becomes of the active policy at an event of a run. It is never replaced by another; nothing but
the class itself takes it away as long as no binding goes; and no policy is left once a binding goes. So
bindings that go do no harm only if there was no policy, or one of them is that of the active policy. -/
theorem lost_binding_leaves_no_policy (cpus : Nat) (features : Features) (interfaces : List IfIndex)
    (files : FileTree) (settings : HostSettings) (events : List Event) (event : Event) :
    let h := new cpus features interfaces files settings
    let before := h.afterAll events
    let after := before.after event
    (after.kernel.sched.policy = before.kernel.sched.policy ∨ before.kernel.sched.policy = none ∨
      after.kernel.sched.policy = none) ∧
    (¬ event.IsActivity → (∀ link, ¬ before.Loses event link) →
      after.kernel.sched.policy = before.kernel.sched.policy ∨
        before.kernel.sched.policy = none ∧ ∃ link, after.kernel.Binds link ∧ ¬ before.kernel.Binds link) ∧
    ((∃ link, before.Loses event link) → after.kernel.sched.policy = none ∧
      (h.RemovesOwnOnly events event ↔ before.kernel.sched.policy = none ∨
        ∃ link, before.Loses event link ∧ h.StillActive events link)) := by
  intro h before after
  have orderly : before.kernel.Orderly := afterAll_orderly (new_orderly ..) events
  have law : after.kernel.sched.policy = none →
      (h.RemovesOwnOnly events event ↔ before.kernel.sched.policy = none ∨
        ∃ link, before.Loses event link ∧ h.StillActive events link) := by
    intro none
    constructor
    · intro removes
      by_cases own : ∃ link, before.Loses event link ∧ h.StillActive events link
      · exact .inr own
      · exact .inl ((removes.2 own).symm.trans none)
    · rintro (free | own)
      · exact ⟨fun _ => none, fun _ => none.trans free.symm⟩
      · exact ⟨fun _ => none, fun other => absurd own other⟩
  by_cases active : event.IsActivity
  · obtain ⟨bound, policy⟩ := activity_binds (h := before) active
    refine ⟨policy, fun calm => absurd active calm, ?_⟩
    rintro ⟨link, there, gone⟩
    exact absurd ((bound link).mpr there) gone
  · rcases after_binds orderly active with unbinds | ⟨link, installs⟩
    · refine ⟨?_, fun _ none => .inl (unbinds.kept fun id bound => ?_), ?_⟩
      · rcases unbinds.policy with none | ⟨same, _⟩
        · exact .inr (.inr none)
        · exact .inl same
      · exact Classical.not_not.mp fun gone => none id ⟨bound, gone⟩
      · rintro ⟨link, there, gone⟩
        exact ⟨unbinds.lost link there gone, law (unbinds.lost link there gone)⟩
    · refine ⟨.inr (.inl installs.free), fun _ _ => .inr ⟨installs.free, link, ?_, installs.new⟩, ?_⟩
      · exact (installs.bound link).mpr (.inl rfl)
      · rintro ⟨other, there, gone⟩
        exact absurd ((installs.bound other).mpr (.inr there)) gone

def bareImage : Image :=
  let manifest := { Manifest.new "own" with maps := [.structOps "ops"] }
  ⟨manifest, Image.encode manifest⟩

def fifoImage : Image := ⟨Shipped.fifo.manifest, Image.encode Shipped.fifo.manifest⟩

def quitter : Script where
  name := "own"
  actions
    | .enqueue => [⟨none, none, none, .giveUp "no"⟩]
    | _ => []

/-- The binding of a scheduler that was kicked out long ago takes along the scheduler that a session has
bound since, whose own binding stays. -/
theorem stale_binding_removes_successor :
    let kicked := (new 1 {} [] .standard .default).afterAll
      [.load bareImage, .bind ⟨2⟩ (quitter.policy 0), .schedule (.addTask { pid := 1 }),
        .schedule (.wake 1 0)]
    let before := kicked.afterAll [.openSession "later" .default, .session 0 (.load fifoImage),
      .session 0 (.attachScheduler .fifo)]
    let after := before.after (.unbind ⟨3⟩)
    kicked.kernel.sched.exit.map (·.policy) = some "own" ∧ kicked.kernel.sched.policy.isNone ∧
      before.kernel.links.keys = [⟨3⟩, ⟨13⟩] ∧ before.kernel.sched.policy.map (·.name) = some "fifo" ∧
      after.kernel.links.keys = [⟨13⟩] ∧ after.kernel.sched.policy.isNone := by
  decide +kernel

end Host

end LoadableSched
