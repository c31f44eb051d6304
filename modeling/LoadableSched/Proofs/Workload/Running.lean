import LoadableSched.Proofs.Policy.Shipped
import LoadableSched.Proofs.Workload.Stepping

/-!
Runs of a workload. It is spawned without a failure and makes any number of steps without one; no task is
lost meanwhile, and each sleeps as long as its profile says.
-/

namespace LoadableSched.Workload

variable {ω α : Type} {profiles : List Profile} {w : Workload} {c : SchedClass ω}

/-! The start. -/

theorem forEach_takes (op : SchedClass ω → α → Except ClassError Unit × SchedClass ω) {pid : α → Pid}
    {before : Option RunState} (after : Option RunState)
    (takes : ∀ (c : SchedClass ω) a, c.Steady → c.state? (pid a) = before → (op c a).1 = .ok () ∧
      (op c a).2.Steady ∧ ∀ other, (op c a).2.state? other = if other = pid a then after else c.state? other)
    (steady : c.Steady) {all : List α} (distinct : (all.map pid).Nodup)
    (ready : ∀ a ∈ all, c.state? (pid a) = before) :
    (forEach op c all).1 = .ok () ∧ (forEach op c all).2.Steady ∧ ∀ other,
      (forEach op c all).2.state? other = if other ∈ all.map pid then after else c.state? other := by
  induction all generalizing c with
  | nil => exact ⟨rfl, steady, fun _ => rfl⟩
  | cons a rest ih =>
    obtain ⟨apart, distinct⟩ := List.nodup_cons.mp distinct
    obtain ⟨result, steady, states⟩ := takes c a steady (ready a List.mem_cons_self)
    unfold forEach
    generalize op c a = done at *
    obtain ⟨_, d⟩ := done
    cases result
    have still : ∀ b ∈ rest, d.state? (pid b) = before := by
      intro b later
      rw [states, if_neg fun same => apart (List.mem_map.mpr ⟨b, later, same⟩)]
      exact ready b (List.mem_cons_of_mem _ later)
    obtain ⟨result, steady, states'⟩ := ih steady distinct still
    refine ⟨result, steady, fun other => ?_⟩
    rw [states', states]
    by_cases same : other = pid a <;> by_cases later : other ∈ rest.map pid <;> simp [same, later]

theorem bursts_of_profiles (distinct : (profiles.map (·.pid)).Nodup) (pid : Pid) (burst : Burst) :
    (Table.ofList (profiles.map fun p => (p.pid, ⟨p, p.burst⟩))).get? pid = some burst ↔
      ∃ p ∈ profiles, p.pid = pid ∧ ⟨p, p.burst⟩ = burst := by
  rw [Table.get?_ofList_eq_some, List.mem_map]
  · simp only [Prod.mk.injEq]
  · rw [List.map_map]
    exact distinct

theorem spawn_tends (steady : c.Steady) (distinct : (profiles.map (·.pid)).Nodup)
    (fresh : ∀ p ∈ profiles, c.state? p.pid = none) :
    ∃ w d, spawn c profiles = (.ok w, d) ∧ Tends profiles w d ∧
      ∀ p ∈ profiles, d.state? p.pid = some .queued := by
  obtain ⟨result, registered, states⟩ := forEach_takes
    (fun c (p : Profile) => c.addTask (Task.withWeight { pid := p.pid } p.weight)) (some .sleeping)
    (fun _ _ steady new => steady.enters new) steady distinct fresh
  unfold spawn
  dsimp only
  generalize forEach _ c profiles = entered at *
  obtain ⟨_, d⟩ := entered
  cases result
  dsimp only at *
  have asleep : ∀ p ∈ profiles, d.state? p.pid = some .sleeping := fun p member =>
    (states p.pid).trans (if_pos (List.mem_map.mpr ⟨p, member, rfl⟩))
  obtain ⟨result, woken, states⟩ := forEach_takes
    (fun c (p : Profile) => c.wake p.pid wakeRunnable) (some .queued) (fun _ _ steady asleep =>
      have ⟨result, after, _, states⟩ := steady.wakes asleep wakeRunnable
      ⟨result, after, states⟩) registered distinct asleep
  generalize forEach _ d profiles = roused at *
  obtain ⟨_, e⟩ := roused
  cases result
  have queued : ∀ p ∈ profiles, e.state? p.pid = some .queued := fun p member =>
    (states p.pid).trans (if_pos (List.mem_map.mpr ⟨p, member, rfl⟩))
  have bursts := bursts_of_profiles distinct
  refine ⟨_, _, rfl, ⟨woken, ⟨.nil, .nil, by simp⟩, ?_, ?_, ?_, ?_⟩, queued⟩
  · exact fun p member => ⟨p.burst, (bursts p.pid _).mpr ⟨p, member, rfl, rfl⟩⟩
  · intro pid burst found
    obtain ⟨p, member, same, rfl⟩ := (bursts pid burst).mp found
    exact ⟨member, same⟩
  · intro p member
    simp [queued p member]
  · intro p member impossible
    cases (queued p member).symm.trans impossible

/-! The run. -/

theorem after_tends (tends : Tends profiles w c) (n : Nat) :
    Tends profiles (w.after c n).1 (w.after c n).2 := by
  induction n with
  | zero => exact tends
  | succ n ih => exact (step_steps ih).2.tends

theorem Tends.located (tends : Tends profiles w c) {p : Profile} (member : p ∈ profiles)
    (waits : c.state? p.pid = some .queued ∨ c.state? p.pid = some .sleeping) : w.Located c p.pid := by
  have agrees := tends.steady.agrees
  rcases waits with queued | asleep
  · refine .inl ⟨queued, ?_, fun s among same => ?_⟩
    · have waits := (agrees.waits p.pid queued).resolve_right List.not_mem_nil
      exact List.count_eq_one_of_mem agrees.distinct waits
    · have asleep := tends.sleeps.asleep s among
      rw [same, queued] at asleep
      cases asleep
  · refine .inr ⟨asleep, ?_⟩
    obtain ⟨s, among, same⟩ := tends.entered p member asleep
    have once := List.count_eq_one_of_mem tends.sleeps.distinct (List.mem_map.mpr ⟨s, among, same⟩)
    rw [List.count, List.countP_map] at once
    rw [← once]
    rfl

theorem Tends.queued_or_sleeping (tends : Tends profiles w c) (idle : ∀ cpu, c.current? cpu = none)
    {p : Profile} (member : p ∈ profiles) :
    c.state? p.pid = some .queued ∨ c.state? p.pid = some .sleeping := by
  cases found : c.state? p.pid with
  | none => exact absurd found (tends.registered p member)
  | some state =>
    cases state with
    | queued => exact .inl rfl
    | sleeping => exact .inr rfl
    | running cpu =>
      rcases tends.steady.backed.running p.pid cpu found with here | impossible
      · cases (idle cpu).symm.trans here
      · cases impossible

theorem Tends.stateOnceWoken (tends : Tends profiles w c) {s : Sleeper} (member : s ∈ w.sleepers) :
    w.stateOnceWoken c s.pid = some (if s.due ≤ c.clock then .queued else .sleeping) := by
  have wakes := (wakeDue_wakes tends.steady tends.sleeps).2
  unfold Workload.stateOnceWoken
  split
  · rename_i due
    exact wakes.woken s member due
  · rename_i early
    rw [wakes.others s.pid, tends.sleeps.asleep s member]
    intro t among due same
    cases tends.sleeps.eq_of_pid among member same
    exact early due

theorem Tends.entry (tends : Tends profiles w c) {p : Profile} (member : p ∈ profiles)
    (falls : w.FallsAsleep c p.pid) :
    ⟨(w.step c).2.clock + p.sleep, p.pid⟩ ∈ (w.step c).1.2.sleepers := by
  obtain ⟨awake, asleep⟩ := falls
  have steps := (step_steps tends).2
  obtain ⟨s, among, same⟩ := steps.tends.entered p member asleep
  rcases steps.fresh s among with ⟨before, early⟩ | ⟨q, other, rfl⟩
  · -- Whoever stood in line before and is not yet due was asleep all through the step.
    have state := tends.stateOnceWoken before
    rw [same, if_neg (UInt64.not_le.mpr early)] at state
    exact absurd state awake
  · obtain ⟨_, mine⟩ := tends.known p member
    obtain ⟨_, others⟩ := tends.known q other
    have same : q.pid = p.pid := same
    rw [same, mine] at others
    cases others
    exact among

theorem after_waits (tends : Tends profiles w c) {n m : Nat} (later : n ≤ m) {s : Sleeper}
    (member : s ∈ (w.after c n).1.sleepers)
    (early : ∀ k, n ≤ k → k < m → (w.after c k).2.clock < s.due) : s ∈ (w.after c m).1.sleepers := by
  induction later with
  | refl => exact member
  | @step m later ih =>
    have waits := ih fun k from_n below => early k from_n (Nat.lt_succ_of_lt below)
    exact (step_steps (after_tends tends m)).2.kept s waits (early m later (Nat.lt_succ_self m))

theorem Tends.keepsAll (tends : Tends profiles w c)
    (queued : ∀ p ∈ profiles, c.state? p.pid = some .queued) : KeepsAll profiles w c where
  queued := queued
  steps n := (step_steps (after_tends tends n)).1
  idle n := (step_steps (after_tends tends n)).2.idle
  located n p member := by
    refine (after_tends tends n).located member ?_
    cases n with
    | zero => exact .inl (queued p member)
    | succ n =>
      exact (after_tends tends (n + 1)).queued_or_sleeping (step_steps (after_tends tends n)).2.idle member

section

variable (tends : Tends profiles w c) {n : Nat} {p : Profile} (member : p ∈ profiles)
  (falls : (w.after c n).1.FallsAsleep (w.after c n).2 p.pid)

include tends member falls

/-- A due time that fits is the one that stands in the line. -/
theorem Tends.rests (fits : w.due c n p < UInt64.size) : w.Rests c n p := by
  have entry : ⟨(w.after c (n + 1)).2.clock + p.sleep, p.pid⟩ ∈ (w.after c (n + 1)).1.sleepers :=
    (after_tends tends n).entry member falls
  have exact_due : ((w.after c (n + 1)).2.clock + p.sleep).toNat = w.due c n p :=
    (UInt64.toNat_add _ _).trans (Nat.mod_eq_of_lt fits)
  intro m later early
  have still := after_waits tends later entry fun k from_n below => by
    rw [UInt64.lt_iff_toNat_lt, exact_due]
    exact early k from_n below
  have tends := after_tends tends m
  refine ⟨tends.sleeps.asleep _ still, (tends.stateOnceWoken still).trans ?_⟩
  simp only [UInt64.le_iff_toNat_le, exact_due]

theorem Tends.woken_at_once (long : UInt64.size ≤ w.due c n p) :
    (w.after c (n + 1)).1.stateOnceWoken (w.after c (n + 1)).2 p.pid = some .queued := by
  have entry : ⟨(w.after c (n + 1)).2.clock + p.sleep, p.pid⟩ ∈ (w.after c (n + 1)).1.sleepers :=
    (after_tends tends n).entry member falls
  refine ((after_tends tends (n + 1)).stateOnceWoken entry).trans ?_
  have wrapped : (w.after c (n + 1)).2.clock + p.sleep ≤ (w.after c (n + 1)).2.clock := by
    have less := p.sleep.toNat_lt
    have bound := (w.after c (n + 1)).2.clock.toNat_lt
    unfold due UInt64.size at long
    rw [UInt64.le_iff_toNat_le, UInt64.toNat_add]
    omega
  rw [if_pos wrapped]

theorem Tends.rests_iff : w.Rests c n p ↔ w.due c n p < UInt64.size := by
  refine ⟨fun rests => ?_, tends.rests member falls⟩
  by_contra long
  have early : (w.after c (n + 1)).2.clock.toNat < w.due c n p :=
    Nat.lt_of_lt_of_le (w.after c (n + 1)).2.clock.toNat_lt (Nat.not_lt.mp long)
  have asleep := (rests (n + 1) (Nat.lt_succ_self n) fun k above below => absurd below (by omega)).2
  rw [if_neg (Nat.not_le_of_lt early), tends.woken_at_once member falls (Nat.not_lt.mp long)] at asleep
  cases asleep

end

def pair : SchedClass Memory := (SchedClass.new 2 Memory.empty).steps [.install (Fifo.policy Memory)]

end LoadableSched.Workload
