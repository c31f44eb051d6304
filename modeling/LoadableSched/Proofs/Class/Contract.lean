import LoadableSched.Policy.Shipped
import LoadableSched.Proofs.Class.Advancing
import LoadableSched.Proofs.Class.Tenure
import LoadableSched.Proofs.Policy.Shipped
import Mathlib.Computability.Language

/-!
The order in which a task hears of what happens to it, from its registration on: the words of a regular
language, cut off where the run ends or the policy loses its place.
-/

namespace LoadableSched.SchedClass

open scoped Computability

/-! The language. -/

def arrival : Language Notice := {[.selectCpu true], [.selectCpu false, .enqueue], [.enqueue]}

def turn : Language Notice := {word | ∃ cpu, word = [.running cpu, .stopping cpu true, .enqueue]}

def lastTurn : Language Notice := {word | ∃ cpu, word = [.running cpu, .stopping cpu false]}

/-- From one sleep to the next: an arrival and `running (stopping enqueue running)∗ stopping`, here in the order
`(running stopping enqueue)∗ running stopping`, so that the processor of a turn is named once. -/
def round : Language Notice := arrival * turn∗ * lastTurn

/-- All that a task hears from its registration to a time when it sleeps. -/
def contract : Language Notice := ({[.enable]} : Language Notice) * round∗

def heardIn : RunState → Language Notice
  | .sleeping => contract
  | .queued => contract * (arrival * turn∗)
  | .running cpu => contract * (arrival * turn∗) * ({[.running cpu]} : Language Notice)

theorem contract_round {word more : List Notice} (heard : word ∈ contract) (one : more ∈ round) :
    word ++ more ∈ contract := by
  have again : contract * round ≤ contract := by
    rw [contract, mul_assoc]
    exact mul_le_mul_right kstar_mul_le_kstar _
  exact again (Language.append_mem_mul heard one)

theorem heardIn_arrival {word more : List Notice} (heard : word ∈ contract) (woke : more ∈ arrival) :
    word ++ more ∈ heardIn .queued := by
  refine Language.append_mem_mul heard ?_
  simpa using Language.append_mem_mul woke (Language.nil_mem_kstar turn)

theorem heardIn_turn {word more : List Notice} (heard : word ∈ heardIn .queued) (ran : more ∈ turn) :
    word ++ more ∈ heardIn .queued := by
  have again : heardIn .queued * turn ≤ heardIn .queued := by
    rw [heardIn, mul_assoc, mul_assoc]
    exact mul_le_mul_right (mul_le_mul_right kstar_mul_le_kstar _) _
  exact again (Language.append_mem_mul heard ran)

theorem heardIn_lastTurn {word more : List Notice} (heard : word ∈ heardIn .queued)
    (ran : more ∈ lastTurn) : word ++ more ∈ contract := by
  obtain ⟨slept, before, woke, arrived, rfl⟩ := Language.mem_mul.mp heard
  rw [List.append_assoc]
  exact contract_round before (Language.append_mem_mul arrived ran)

theorem Leg.heardIn {before after : RunState} {notices word : List Notice}
    (leg : Leg before notices after) (heard : word ∈ heardIn before) :
    word ++ notices ∈ SchedClass.heardIn after := by
  have ran : ∀ {cpu word}, word ∈ SchedClass.heardIn (.running cpu) →
      ∃ early ∈ SchedClass.heardIn .queued, word = early ++ [.running cpu] := by
    intro cpu word heard
    obtain ⟨early, waited, last, rfl, rfl⟩ := Language.mem_mul.mp heard
    exact ⟨early, waited, rfl⟩
  cases leg with
  | rest => rwa [List.append_nil]
  | direct => exact heardIn_arrival heard (.inl rfl)
  | asked => exact heardIn_arrival heard (.inr (.inl rfl))
  | entered => exact heardIn_arrival heard (.inr (.inr rfl))
  | started cpu => exact Language.append_mem_mul heard rfl
  | requeued cpu =>
    obtain ⟨early, waited, rfl⟩ := ran heard
    rw [List.append_assoc]
    exact heardIn_turn waited ⟨cpu, rfl⟩
  | slept cpu =>
    obtain ⟨early, waited, rfl⟩ := ran heard
    rw [List.append_assoc]
    exact heardIn_lastTurn waited ⟨cpu, rfl⟩

theorem heardIn_contract {state : RunState} {word : List Notice} (heard : word ∈ heardIn state) :
    ∃ whole ∈ contract, word <+: whole := by
  cases state with
  | sleeping => exact ⟨word, heard, List.prefix_rfl⟩
  | queued => exact ⟨_, heardIn_lastTurn heard ⟨0, rfl⟩, List.prefix_append _ _⟩
  | running cpu => exact ⟨_, (Leg.slept cpu).heardIn heard, List.prefix_append _ _⟩

/-! Runs. -/

variable {ω : Type} {c : SchedClass ω} {pid : Pid}

def Undisturbed (c : SchedClass ω) : List (Operation ω) → Prop
  | [] => True
  | op :: rest => c.Spares op ∧ (c.step op).Undisturbed rest

theorem undisturbed_append {ops later : List (Operation ω)} :
    c.Undisturbed (ops ++ later) ↔ c.Undisturbed ops ∧ (c.steps ops).Undisturbed later := by
  induction ops generalizing c with
  | nil => simp [Undisturbed, steps]
  | cons op rest ih => simp only [List.cons_append, Undisturbed, steps, ih, and_assoc]

theorem Undisturbed.silent {ops : List (Operation ω)} (undisturbed : c.Undisturbed ops)
    (gone : c.policy = none) : c.allHeard ops = [] := by
  induction ops generalizing c with
  | nil => rfl
  | cons op rest ih =>
    obtain ⟨nothing, still⟩ := undisturbed.1.hears.none_left gone
    rw [allHeard_cons, nothing, ih undisturbed.2 still, List.nil_append]

theorem Orderly.steps (orderly : c.Orderly) {ops : List (Operation ω)}
    (undisturbed : c.Undisturbed ops) : (c.steps ops).Orderly := by
  induction ops generalizing c with
  | nil => exact orderly
  | cons op rest ih => exact ih (orderly.step undisturbed.1) undisturbed.2

theorem Orderly.heard_in_run (orderly : c.Orderly) {ops : List (Operation ω)}
    (undisturbed : c.Undisturbed ops) (stays : ∀ op ∈ ops, op ≠ .removeTask pid) {state : RunState}
    (was : c.state? pid = some state) {word : List Notice} (heard : word ∈ heardIn state) :
    ∃ whole ∈ contract, word ++ noticesOf pid (c.allHeard ops) <+: whole := by
  -- The state of the task tells what it heard so far, and each operation is a leg from there.
  induction ops generalizing c word state with
  | nil => simpa [allHeard, allInquiries] using heardIn_contract heard
  | cons op rest ih =>
    obtain ⟨_, _, advances⟩ := orderly.conducts undisturbed.1
    obtain ⟨notices, after, leg, there, part, all⟩ := advances pid (stays op List.mem_cons_self) state was
    have further := leg.heardIn heard
    rw [allHeard_cons, noticesOf_append, ← List.append_assoc]
    cases active : (c.step op).policy with
    | none =>
      -- The policy is gone, and its last operation may have been cut off.
      rw [undisturbed.2.silent active, noticesOf_nil, List.append_nil]
      obtain ⟨whole, kept, reaches⟩ := heardIn_contract further
      exact ⟨whole, kept, ((List.prefix_append_right_inj word).mpr part).trans reaches⟩
    | some policy =>
      rw [all (by rw [active]; rfl)]
      exact ih (orderly.step undisturbed.1) undisturbed.2
        (fun op member => stays op (List.mem_cons_of_mem _ member)) there further

theorem Orderly.registration (orderly : c.Orderly) {task : Task} {ops : List (Operation ω)}
    (undisturbed : c.Undisturbed (.addTask task :: ops)) (entered : (c.addTask task).1 = .ok ())
    (stays : ∀ op ∈ ops, op ≠ .removeTask task.pid) :
    ∃ whole ∈ contract, noticesOf task.pid (c.allHeard (.addTask task :: ops)) <+: whole := by
  have fresh : c.tasks.contains task.pid ≠ true := by
    intro known
    simp [SchedClass.addTask, known] at entered
  have first : [.enable] ∈ contract := by
    have enabled : [Notice.enable] ∈ ({[.enable]} : Language Notice) := rfl
    exact Language.append_mem_mul enabled (Language.nil_mem_kstar round)
  obtain ⟨moves, tells⟩ := orderly.enters fresh
  obtain ⟨part, all⟩ := tells task.pid
  rw [if_pos rfl] at part all
  have next := orderly.step undisturbed.1
  rw [allHeard_cons, noticesOf_append]
  cases active : (c.step (.addTask task)).policy with
  | none =>
    rw [undisturbed.2.silent active, noticesOf_nil, List.append_nil]
    exact ⟨_, first, part⟩
  | some policy =>
    rw [show noticesOf task.pid (c.heard (.addTask task)) = [.enable] from
      all (show (c.step (.addTask task)).policy.isSome by rw [active]; rfl)]
    exact next.heard_in_run undisturbed.2 stays moves.state_self first

/-! The time before the first task. -/

structure Deserted (c : SchedClass ω) : Prop where
  agrees : c.Agrees []
  backed : c.Backed []
  tasks : ∀ pid, c.tasks.contains pid = false
  current : ∀ cpu, c.current? cpu = none

namespace Deserted

variable {d : SchedClass ω} {is : List (Inquiry ω)}

theorem new (cpus : Nat) (memory : ω) : (new cpus memory).Deserted := by
  obtain ⟨agrees, backed, held⟩ := new_agrees cpus memory
  refine ⟨agrees, backed, fun _ => rfl, fun cpu => Option.eq_none_iff_forall_ne_some.mpr ?_⟩
  intro pid here
  cases held cpu pid here

theorem serves (deserted : c.Deserted) (serves : c.Serves is d) (agrees : d.Agrees []) :
    d.Deserted where
  agrees := agrees
  backed := serves.backed deserted.backed
  tasks pid := (serves.registered pid).trans (deserted.tasks pid)
  current cpu := (serves.current? cpu).trans (deserted.current cpu)

theorem unknown (deserted : c.Deserted) (pid : Pid) : c.tasks.get? pid = none := by
  simpa [Table.contains_eq] using deserted.tasks pid

theorem pickNext (deserted : c.Deserted) (cpu : CpuId) : (c.pickNext cpu).2.Deserted := by
  unfold SchedClass.pickNext
  split
  · exact deserted
  rw [deserted.current cpu]
  obtain ⟨refills, between⟩ := refill_serves deserted.agrees cpu
  have refilled := deserted.serves refills between
  obtain ⟨next, d, made, serves, loosened, taken⟩ := takeNext_spec between cpu
  simp only [made]
  cases next with
  | none =>
    have idled := Queues.setIdle_shifts loosened.queues cpu true
    exact (refilled.serves serves loosened).serves (.still rfl rfl (fun _ => rfl) fun _ => rfl)
      (loosened.of_shifts idled d.memory)
  | some pid =>
    -- There is nothing to take, for what waits is registered.
    have queued := contains_of_state? (taken pid rfl).1
    rw [serves.registered, refilled.tasks] at queued
    cases queued

theorem step (deserted : c.Deserted) {op : Operation ω} (other : ∀ task, op ≠ .addTask task) :
    (c.step op).Deserted := by
  cases op with
  | install policy =>
    obtain ⟨serves, agrees⟩ := install_serves deserted.agrees policy
    exact deserted.serves serves agrees
  | uninstall =>
    obtain ⟨serves, agrees⟩ := uninstall_serves deserted.agrees
    exact deserted.serves serves agrees
  | addTask task => exact absurd rfl (other task)
  | removeTask pid => simpa [SchedClass.step, removeTask, deserted.unknown pid] using deserted
  | wake pid flags => simpa [SchedClass.step, wake, deserted.unknown pid] using deserted
  | enqueue pid flags => simpa [SchedClass.step, enqueue, deserted.unknown pid] using deserted
  | pickNext cpu => exact deserted.pickNext cpu
  | stop cpu ran runnable =>
    simp only [SchedClass.step, stop, deserted.current cpu]
    split <;> exact deserted
  | advanceClock delta =>
    exact deserted.serves (.still rfl rfl (fun _ => rfl) fun _ => rfl)
      (deserted.agrees.congr rfl deserted.agrees.tasks fun _ => rfl)
  | setMemory memory =>
    exact deserted.serves (.still rfl rfl (fun _ => rfl) fun _ => rfl)
      (deserted.agrees.congr rfl deserted.agrees.tasks fun _ => rfl)

theorem steps (deserted : c.Deserted) {ops : List (Operation ω)}
    (others : ∀ op ∈ ops, ∀ task, op ≠ .addTask task) : (c.steps ops).Deserted := by
  induction ops generalizing c with
  | nil => exact deserted
  | cons op rest ih =>
    exact ih (deserted.step (others op List.mem_cons_self)) fun later member =>
      others later (List.mem_cons_of_mem _ member)

end Deserted

theorem Deserted.installed (deserted : c.Deserted) {policy : Policy ω} (focused : policy.Focused)
    (done : (c.install policy).1 = .ok ()) : (c.step (.install policy)).Orderly := by
  obtain ⟨serves, agrees⟩ := install_serves deserted.agrees policy
  have after := deserted.serves serves agrees
  refine ⟨agrees, after.backed, fun cpu pid here => ?_, fun pid slot found => ?_, fun p active => ?_⟩
  · cases (after.current cpu).symm.trans here
  · cases (after.unknown pid).symm.trans found
  · obtain ⟨_, stays, leaves⟩ := c.installed_policy policy done
    have there : (c.install policy).2.policy = some p := active
    by_cases fine : ∀ event ∈ c.installHeard policy, event.failure = none
    · cases Option.some.inj ((stays fine).symm.trans there)
      exact focused
    · obtain ⟨event, member, failed⟩ : ∃ event ∈ c.installHeard policy, event.failure ≠ none := by
        simpa using fine
      cases (leaves ⟨event, member, failed⟩).symm.trans there

/-- The policies that come with the host mind their own business, and with any policy that does and that
is installed before the first task, a task hears from its registration on what the contract says, cut
off where the run ends, where the task is removed or where the policy loses its place. Nothing is heard
from then on until a policy is installed. -/
theorem notices_follow_contract (cpus : Nat) (memory : ω) {policy : Policy ω} (focused : policy.Focused)
    (early late : List (Operation ω)) (before_tasks : ∀ op ∈ early, ∀ task, op ≠ .addTask task)
    (installed : (((new cpus memory).steps early).install policy).1 = .ok ())
    (undisturbed : ((new cpus memory).steps (early ++ [.install policy])).Undisturbed late) :
    let c := (new cpus memory).steps (early ++ [.install policy])
    (∀ shipped : Policy Memory, shipped.IsShipped → shipped.Focused) ∧
    (∀ before task during after, late = before ++ .addTask task :: (during ++ after) →
      ((c.steps before).addTask task).1 = .ok () → (∀ op ∈ during, op ≠ .removeTask task.pid) →
      ∃ word ∈ contract,
        noticesOf task.pid ((c.steps before).allHeard (.addTask task :: during)) <+: word) ∧
    (∀ before after, late = before ++ after → (c.steps before).policy = none →
      (c.steps before).allHeard after = []) ∧
    ∀ later, ((new cpus memory).allHeard
      (early ++ .install policy :: (late ++ later))).IsChain Event.Precedes := by
  intro c
  have orderly : c.Orderly := by
    have deserted := (Deserted.new cpus memory).steps before_tasks
    simpa only [c, steps_append, steps] using deserted.installed focused installed
  refine ⟨fun _ shipped => shipped.focused, ?_, ?_, fun later => allHeard_chain _ _⟩
  · intro before task during after split entered stays
    obtain ⟨first, rest⟩ := undisturbed_append.mp (split ▸ undisturbed)
    have until_then : (c.steps before).Undisturbed (.addTask task :: during) :=
      ⟨rest.1, (undisturbed_append.mp rest.2).1⟩
    exact (orderly.steps first).registration until_then entered stays
  · intro before after split gone
    exact (undisturbed_append.mp (split ▸ undisturbed)).2.silent gone

theorem fifo_follows_contract :
    let c := (new 1 Memory.empty).steps ([] ++ [.install (Fifo.policy Memory)])
    let during := [.wake 1 0, .wake 1 0, .addTask { pid := 2 }, .pickNext 0, .wake 2 0, .stop 0 5 true,
      .pickNext 0, .removeTask 2, .pickNext 0, .stop 0 5 false, .enqueue 1 0]
    noticesOf 1 (c.allHeard (.addTask { pid := 1 } :: during)) =
      [.enable, .selectCpu true, .running 0, .stopping 0 true, .enqueue, .running 0, .stopping 0 false,
        .enqueue] ∧
    ∃ word ∈ contract, noticesOf 1 (c.allHeard (.addTask { pid := 1 } :: during)) <+: word := by
  intro c during
  have follows := notices_follow_contract 1 Memory.empty Fifo.focused []
    (.addTask { pid := 1 } :: (during ++ [.removeTask 1])) (by simp) rfl (by simp [during, Undisturbed, Spares])
  exact ⟨by decide, follows.2.1 [] { pid := 1 } during [.removeTask 1] rfl rfl (by simp [during])⟩

end LoadableSched.SchedClass
