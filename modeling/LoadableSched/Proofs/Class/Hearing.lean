import LoadableSched.Class.Hearing
import LoadableSched.Proofs.Class.Leading

/-!
What a policy hears, whatever the policy and whatever the state of the class: nothing after the callback
in which something went wrong, for that costs the policy its place. None of its queues is left then.
-/

namespace LoadableSched.SchedClass

variable {ω α : Type} {c d e : SchedClass ω} {xs ys : List Event}

@[simp] theorem noticesOf_nil (pid : Pid) : noticesOf pid [] = [] := rfl

@[simp] theorem noticesOf_append (pid : Pid) (xs ys : List Event) :
    noticesOf pid (xs ++ ys) = noticesOf pid xs ++ noticesOf pid ys := List.filterMap_append

@[simp] theorem noticesOf_task (pid other : Pid) (notice : Notice) (failure : Option ClassError)
    (rest : List Event) : noticesOf pid (⟨.task other notice, failure⟩ :: rest) =
      (if other = pid then [notice] else []) ++ noticesOf pid rest := by
  by_cases same : other = pid <;> simp [noticesOf, Event.notice?, same]

@[simp] theorem noticesOf_dispatch (pid : Pid) (cpu : CpuId) (failure : Option ClassError)
    (rest : List Event) :
    noticesOf pid (⟨.dispatch cpu, failure⟩ :: rest) = noticesOf pid rest :=
  List.filterMap_cons_none rfl

@[simp] theorem noticesOf_refill (pid : Pid) (c : SchedClass ω) (cpu : CpuId) :
    noticesOf pid ((c.refillInquiries cpu).map Inquiry.event) = [] := by
  unfold refillInquiries
  split
  · rfl
  · split
    · rfl
    · simp [Inquiry.event]

/-- What the policy hears from `c` to `d`. Either it stays and nothing went wrong, or the last callback
went wrong and is the reason why the policy is gone with all its queues. -/
inductive Hears (c : SchedClass ω) (events : List Event) (d : SchedClass ω) : Prop where
  | stays (policy : d.policy = c.policy) (exit : d.exit = c.exit)
      (silent : c.policy = none → events = [] ∧ c.queues.SameNumbers d.queues)
      (fine : ∀ event ∈ events, event.failure = none)
  | leaves (policy : Policy ω) (early : List Event) (last : Event) (reason : ClassError)
      (active : c.policy = some policy) (gone : d.policy = none) (cleared : d.queues.OnlyBuiltin)
      (exit : d.exit = some ⟨policy.name, reason⟩) (split : events = early ++ [last])
      (fine : ∀ event ∈ early, event.failure = none) (failed : last.failure = some reason)

namespace Hears

theorem still (policy : d.policy = c.policy) (exit : d.exit = c.exit)
    (numbers : c.queues.SameNumbers d.queues) : c.Hears [] d :=
  .stays policy exit (fun _ => ⟨rfl, numbers⟩) fun _ member => absurd member List.not_mem_nil

theorem refl (c : SchedClass ω) : c.Hears [] c := still rfl rfl (.refl _)

theorem trans (first : c.Hears xs d) (later : d.Hears ys e) : c.Hears (xs ++ ys) e := by
  cases first with
  | stays policy exit silent fine =>
    cases later with
    | stays policy' exit' silent' fine' =>
      refine .stays (policy'.trans policy) (exit'.trans exit) (fun none => ?_)
        (List.forall_mem_append.mpr ⟨fine, fine'⟩)
      obtain ⟨nothing, numbers⟩ := silent none
      obtain ⟨nothing', numbers'⟩ := silent' (policy.trans none)
      exact ⟨by rw [nothing, nothing', List.append_nil], numbers.trans numbers'⟩
    | leaves p early last reason active gone cleared exit' split fine' failed =>
      refine .leaves p (xs ++ early) last reason (policy.symm.trans active) gone cleared exit' ?_
        (List.forall_mem_append.mpr ⟨fine, fine'⟩) failed
      rw [split, List.append_assoc]
  | leaves p early last reason active gone cleared exit split fine failed =>
    -- Nobody is left to hear of what comes later.
    cases later with
    | stays policy' exit' silent' fine' =>
      obtain ⟨nothing, numbers⟩ := silent' gone
      refine .leaves p early last reason active (policy'.trans gone) (numbers.onlyBuiltin cleared)
        (exit'.trans exit) ?_ fine failed
      rw [nothing, List.append_nil, split]
    | leaves _ _ _ _ active' =>
      rw [gone] at active'
      cases active'

theorem after (later : d.Hears ys e) (policy : d.policy = c.policy) (exit : d.exit = c.exit)
    (numbers : c.queues.SameNumbers d.queues) : c.Hears ys e := by
  simpa using (still policy exit numbers).trans later

/-- The policy stays exactly if nothing went wrong. -/
theorem policy_eq (h : c.Hears xs d) :
    ((∀ event ∈ xs, event.failure = none) → d.policy = c.policy) ∧
      ((∃ event ∈ xs, event.failure ≠ none) → d.policy = none) := by
  cases h with
  | stays policy exit silent fine =>
    refine ⟨fun _ => policy, ?_⟩
    rintro ⟨event, member, failed⟩
    exact absurd (fine event member) failed
  | leaves p early last reason active gone cleared exit split fine failed =>
    refine ⟨fun all => ?_, fun _ => gone⟩
    have clean := all last (split ▸ List.mem_append_right _ (List.mem_singleton_self _))
    rw [failed] at clean
    cases clean

theorem policy_or (h : c.Hears xs d) : d.policy = c.policy ∨ d.policy = none := by
  cases h with
  | stays policy => exact .inl policy
  | leaves _ _ _ _ _ gone => exact .inr gone

theorem none_left (h : c.Hears xs d) (free : c.policy = none) :
    xs = [] ∧ d.policy = none := by
  cases h with
  | stays policy exit silent fine => exact ⟨(silent free).1, policy.trans free⟩
  | leaves p early last reason active =>
    rw [free] at active
    cases active

theorem active_before (h : c.Hears xs d) (active : d.policy.isSome) : c.policy.isSome := by
  cases before : c.policy with
  | some policy => rfl
  | none => rw [(h.none_left before).2] at active; exact active

theorem one_fine {occasion : Occasion} (h : c.Retains d) (active : c.policy.isSome) :
    c.Hears [⟨occasion, none⟩] d := by
  refine .stays h.policy h.exit ?_ ?_
  · intro none
    rw [none] at active
    cases active
  · intro event member
    rw [List.mem_singleton.mp member]

theorem one_failed {occasion : Occasion} {reason : ClassError} (h : c.Retains d)
    (active : c.policy.isSome) : c.Hears [⟨occasion, some reason⟩] (d.abort reason) := by
  obtain ⟨policy, active⟩ := Option.isSome_iff_exists.mp active
  have still := h.policy.trans active
  have removed : d.abort reason = { requeueOrphans { d with policy := none } with
      exit := some ⟨policy.name, reason⟩ } := by
    simp only [abort, still]
  rw [removed]
  refine .leaves policy [] ⟨occasion, some reason⟩ reason active ?_ (requeueOrphans_onlyBuiltin _) rfl
    rfl ?_ rfl
  · exact (requeueOrphans_retains { d with policy := none }).policy
  · exact fun _ member => absurd member List.not_mem_nil

end Hears

theorem Inquiry.hears {i : Inquiry ω} (active : i.before.policy = some i.policy)
    (later : i.matter ≠ .init) : i.before.Hears [i.event] i.after := by
  have there : i.before.policy.isSome := by rw [active]; rfl
  have retains := i.reached_retains
  unfold Inquiry.event
  cases failed : i.failure with
  | none => exact Inquiry.after_fine failed ▸ .one_fine retains there
  | some reason => exact Inquiry.after_failed failed later ▸ .one_failed retains there

theorem Leads.hears {is : List (Inquiry ω)} (leads : c.Leads is d) :
    c.Hears (is.map Inquiry.event) d := by
  induction leads with
  | still tends => exact .still tends.policy tends.exit tends.numbers
  | asks tends active later _ ih =>
    exact ((Inquiry.hears active later).trans ih).after tends.policy tends.exit tends.numbers

theorem enableAll_hears (c : SchedClass ω) (pids : List Pid) :
    c.Hears ((c.enableAllInquiries pids).map Inquiry.event) (pids.foldl enable c) :=
  (c.enableAll_leads pids).hears

theorem enqueueGlobal_hears {pid : Pid} (made : c.enqueueGlobal pid = .ok d) : c.Hears [] d :=
  (Leads.still (Tends.enqueueGlobal made)).hears

theorem step_hears (c : SchedClass ω) {op : Operation ω} (spares : op.SparesPolicy) :
    c.Hears (c.heard op) (c.step op) := (c.step_leads spares).hears

/-- The operation does nothing about the policy: one that is installed while there is one is refused,
and nothing happens if one is to be removed and there is none. -/
def Spares (c : SchedClass ω) : Operation ω → Prop
  | .install _ => c.policy.isSome
  | .uninstall => c.policy = none
  | _ => True

theorem Spares.cases {op : Operation ω} (spares : c.Spares op) :
    op.SparesPolicy ∨ (c.heard op = [] ∧ c.step op = c) := by
  cases op with
  | install policy =>
    obtain ⟨active, busy⟩ := Option.isSome_iff_exists.mp spares
    exact .inr ⟨by simp [heard, inquiries, installInquiries, busy], by simp [step, install, busy]⟩
  | uninstall => exact .inr ⟨rfl, by simp [step, uninstall, show c.policy = none from spares]⟩
  | addTask | removeTask | wake | enqueue | pickNext | stop | advanceClock | setMemory =>
    exact .inl trivial

theorem Spares.hears {op : Operation ω} (spares : c.Spares op) :
    c.Hears (c.heard op) (c.step op) := by
  rcases spares.cases with spares | ⟨nothing, same⟩
  · exact step_hears c spares
  · rw [nothing, same]
    exact .refl c

end LoadableSched.SchedClass
