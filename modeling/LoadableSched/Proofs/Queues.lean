import LoadableSched.Class.Queues
import LoadableSched.Proofs.Table

/-!
What each operation on the dispatch queues does to the tasks that wait, over all queues together: it
appends some, takes some out, or only moves them about.
-/

namespace LoadableSched.Queues

theorem flatten_modify {α : Type} {ls : List (List α)} {i : Nat} {x : List α}
    (found : ls[i]? = some x) (f : List α → List α) {gained lost : List α}
    (change : (f x ++ lost).Perm (x ++ gained)) :
    ((ls.modify i f).flatten ++ lost).Perm (ls.flatten ++ gained) := by
  induction ls generalizing i with
  | nil => simp at found
  | cons l ls ih =>
    cases i with
    | zero =>
      have here : l = x := by simpa using found
      subst here
      simp only [List.modify_zero_cons, List.flatten_cons]
      calc f l ++ ls.flatten ++ lost
          |>.Perm (f l ++ lost ++ ls.flatten) := by
            simp only [List.append_assoc]
            exact List.Perm.append_left _ List.perm_append_comm
        _ |>.Perm (l ++ gained ++ ls.flatten) := change.append_right _
        _ |>.Perm (l ++ ls.flatten ++ gained) := by
            simp only [List.append_assoc]
            exact List.Perm.append_left _ List.perm_append_comm
    | succ i =>
      have step := ih (by simpa using found)
      simp only [List.modify_succ_cons, List.flatten_cons, List.append_assoc]
      exact List.Perm.append_left _ (by simpa only [List.append_assoc] using step)

/-- The shared queues stand in order of their numbers, the global one among them, and every processor
has its flag. -/
structure WellFormed (q : Queues) : Prop where
  ordered : q.shared.Ordered
  global : q.shared.contains globalQueue = true
  flags : q.idle.length = q.cpus

/-- From `q` to `r` some tasks are put on queues and some are taken off, and others at most change
their places. -/
structure Shifts (q r : Queues) (gained lost : List Pid) : Prop where
  waiting : (r.waiting ++ lost).Perm (q.waiting ++ gained)
  cpus : r.cpus = q.cpus
  wellFormed : r.WellFormed

namespace Shifts

variable {q r : Queues} {gained lost : List Pid}

theorem refl (sound : q.WellFormed) : q.Shifts q [] [] := ⟨.refl _, rfl, sound⟩

theorem trans_still {s : Queues} (first : q.Shifts r [] []) (later : r.Shifts s gained lost) :
    q.Shifts s gained lost where
  waiting := by
    have same : r.waiting.Perm q.waiting := by simpa using first.waiting
    exact later.waiting.trans (same.append_right _)
  cpus := later.cpus.trans first.cpus
  wellFormed := later.wellFormed

theorem waiting_perm (h : q.Shifts r [] []) : r.waiting.Perm q.waiting := by simpa using h.waiting

theorem waiting_gain {pid : Pid} (h : q.Shifts r [pid] []) : r.waiting.Perm (pid :: q.waiting) := by
  have moved := h.waiting
  rw [List.append_nil] at moved
  exact moved.trans List.perm_append_comm

theorem waiting_lose {pid : Pid} (h : q.Shifts r [] [pid]) : q.waiting.Perm (pid :: r.waiting) := by
  have moved := h.waiting.symm
  rw [List.append_nil] at moved
  exact moved.trans List.perm_append_comm

end Shifts

theorem wellFormed_new (cpus : Nat) : (Queues.new cpus).WellFormed where
  ordered := List.pairwise_singleton _ _
  global := rfl
  flags := by simp [Queues.new, Queues.cpus]

theorem waiting_new (cpus : Nat) : (Queues.new cpus).waiting = [] := by
  simp [Queues.new, waiting, Table.ofList, Table.values, Table.insert, Table.insertEntry,
    EmptyCollection.emptyCollection, Table.empty]

section

variable {q : Queues} (sound : q.WellFormed)

include sound

theorem modify_shifts {queue : QueueId} {pids : List Pid} (found : q.shared.get? queue = some pids)
    (f : List Pid → List Pid) {gained lost : List Pid}
    (change : (f pids ++ lost).Perm (pids ++ gained)) :
    q.Shifts { q with shared := q.shared.modify queue f } gained lost where
  waiting := by
    have step := sound.ordered.flatten_modify found f change
    simp only [waiting]
    calc (q.shared.modify queue f).values.flatten ++ q.locals.flatten ++ lost
        |>.Perm ((q.shared.modify queue f).values.flatten ++ lost ++ q.locals.flatten) := by
          simp only [List.append_assoc]
          exact List.Perm.append_left _ List.perm_append_comm
      _ |>.Perm (q.shared.values.flatten ++ gained ++ q.locals.flatten) := step.append_right _
      _ |>.Perm (q.shared.values.flatten ++ q.locals.flatten ++ gained) := by
          simp only [List.append_assoc]
          exact List.Perm.append_left _ List.perm_append_comm
  cpus := rfl
  wellFormed :=
    { ordered := sound.ordered.modify _ _
      global := (Table.contains_modify _ _ _ _).trans sound.global
      flags := sound.flags }

theorem modify_local_shifts {cpu : CpuId} {pids : List Pid} (found : q.locals[cpu]? = some pids)
    (f : List Pid → List Pid) {gained lost : List Pid}
    (change : (f pids ++ lost).Perm (pids ++ gained)) :
    q.Shifts { q with locals := q.locals.modify cpu f } gained lost where
  waiting := by
    have step := flatten_modify found f change
    simp only [waiting, List.append_assoc]
    exact List.Perm.append_left _ step
  cpus := by simp [cpus]
  wellFormed := ⟨sound.ordered, sound.global, by simpa [cpus] using sound.flags⟩

theorem push_shifts {queue : QueueId} {cpu : CpuId} {pid : Pid} {r : Queues}
    (pushed : q.push queue cpu pid = .ok r) : q.Shifts r [pid] [] := by
  unfold push at pushed
  split at pushed
  · split at pushed
    · rename_i known
      cases Except.ok.inj pushed
      have found : q.locals[cpu]? = some q.locals[cpu] := List.getElem?_eq_getElem known
      exact modify_local_shifts sound found (· ++ [pid]) (by simp)
    · cases pushed
  · split at pushed
    · rename_i present
      cases Except.ok.inj pushed
      obtain ⟨pids, found⟩ := Option.isSome_iff_exists.mp present
      exact modify_shifts sound found (· ++ [pid]) (by simp)
    · cases pushed

omit sound in
theorem push_ok {queue : QueueId} (other : queue ≠ localQueue)
    (present : q.shared.contains queue = true) (cpu : CpuId) (pid : Pid) :
    ∃ r, q.push queue cpu pid = .ok r :=
  ⟨_, by rw [push, if_neg other, if_pos present]⟩

theorem push_global (cpu : CpuId) (pid : Pid) : ∃ r, q.push globalQueue cpu pid = .ok r :=
  push_ok (by decide) sound.global cpu pid

theorem pop_shifts {queue : QueueId} {next : Option Pid} {r : Queues}
    (popped : q.pop queue = .ok (next, r)) : q.Shifts r [] next.toList := by
  unfold pop at popped
  split at popped
  · cases popped
  · rename_i pids found
    cases Except.ok.inj popped
    apply modify_shifts sound found List.tail
    cases pids with
    | nil => exact .refl _
    | cons pid rest => simp

theorem popLocal_shifts (cpu : CpuId) :
    q.Shifts (q.popLocal cpu).2 [] (q.popLocal cpu).1.toList := by
  simp only [popLocal]
  cases found : q.locals[cpu]? with
  | none =>
    have beyond : q.locals.length ≤ cpu := List.getElem?_eq_none_iff.mp found
    rw [List.modify_eq_self beyond]
    exact Shifts.refl sound
  | some pids =>
    apply modify_local_shifts sound found List.tail
    cases pids with
    | nil => exact .refl _
    | cons pid rest => simp

theorem moveToLocal_shifts {queue : QueueId} {cpu : CpuId} {moved : Bool} {r : Queues}
    (done : q.moveToLocal queue cpu = .ok (moved, r)) : q.Shifts r [] [] := by
  unfold moveToLocal at done
  split at done
  · cases done
  · rename_i known
    split at done
    · cases done
    · rename_i popped
      cases Except.ok.inj done
      exact pop_shifts sound popped
    · rename_i pid s popped
      cases Except.ok.inj done
      have taken := pop_shifts sound popped
      have inRange : cpu < s.locals.length := by
        have same : s.locals.length = q.cpus := taken.cpus
        exact same ▸ Nat.lt_of_not_le known
      have put : s.Shifts { s with locals := s.locals.modify cpu (· ++ [pid]) } [pid] [] :=
        modify_local_shifts taken.wellFormed (List.getElem?_eq_getElem inRange) _ (by simp)
      refine ⟨?_, put.cpus.trans taken.cpus, put.wellFormed⟩
      have before := taken.waiting_lose
      have after := put.waiting_gain
      simpa using after.trans before.symm

theorem insert_shifts {queue : QueueId} (fresh : q.shared.get? queue = none) :
    q.Shifts { q with shared := q.shared.insert queue [] } [] [] where
  waiting := by simp [waiting, Table.flatten_insert_nil fresh]
  cpus := rfl
  wellFormed :=
    { ordered := sound.ordered.insert _ _
      global := by simp [Table.contains_insert, sound.global]
      flags := sound.flags }

theorem create_shifts (id : Int64) : q.Shifts (q.create id).2 [] [] := by
  have attempt : ∀ (s : Queues) (queue : QueueId), s.WellFormed →
      s.Shifts (if s.shared.contains queue then
        ((.error (.queueExists queue), s) : Except ClassError QueueId × Queues)
      else (.ok queue, { s with shared := s.shared.insert queue [] })).2 [] [] := by
    intro s queue sound
    split
    · exact Shifts.refl sound
    · rename_i absent
      exact insert_shifts sound (by simpa [Table.contains] using absent)
  unfold create
  split
  · have renumbered : q.Shifts { q with nextFree := q.firstFree q.shared.size q.nextFree } [] [] :=
      ⟨.refl _, rfl, sound.ordered, sound.global, sound.flags⟩
    exact renumbered.trans_still (attempt _ _ renumbered.wellFormed)
  · split
    · exact Shifts.refl sound
    · exact attempt q _ sound

theorem idle_shifts (flags : List Bool) (length : flags.length = q.idle.length) :
    q.Shifts { q with idle := flags } [] [] :=
  ⟨.refl _, rfl, sound.ordered, sound.global, length.trans sound.flags⟩

theorem setIdle_shifts (cpu : CpuId) (idle : Bool) : q.Shifts (q.setIdle cpu idle) [] [] :=
  idle_shifts sound _ (List.length_set ..)

theorem selectCpu_shifts (previous : CpuId) : q.Shifts (q.selectCpu previous).2 [] [] := by
  have claim : ∀ cpu, q.Shifts (q.claim cpu).2 [] [] := by
    intro cpu
    unfold claim
    split
    · exact setIdle_shifts sound cpu false
    · exact Shifts.refl sound
  have claimAny : ∀ s : Queues, s.WellFormed → s.Shifts s.claimAny.2 [] [] := by
    intro s sound
    unfold Queues.claimAny
    split
    · exact Shifts.refl sound
    · rename_i cpu _
      exact setIdle_shifts sound cpu false
  have first : q.Shifts (if previous < q.cpus then q.claim previous else (false, q)).2 [] [] := by
    split
    · exact claim previous
    · exact Shifts.refl sound
  have second := claimAny _ first.wellFormed
  have either := first.trans_still second
  unfold selectCpu
  generalize (if previous < q.cpus then q.claim previous else (false, q)) = tried at first either ⊢
  obtain ⟨claimed, r⟩ := tried
  cases claimed with
  | true => exact first
  | false =>
    simp only [Bool.false_eq_true, if_false]
    split <;> rename_i found <;> simpa [found] using either

theorem remove_shifts (pid : Pid) :
    q.Shifts (q.remove pid).2 [] (if pid ∈ q.waiting then [pid] else []) := by
  have taken : ∀ pids : List Pid, pid ∈ pids → (pids.erase pid ++ [pid]).Perm (pids ++ []) := by
    intro pids member
    rw [List.append_nil]
    exact (List.perm_append_singleton pid _).trans (List.perm_cons_erase member).symm
  unfold remove
  split
  · rename_i entry queue pids found
    have member : (queue, pids) ∈ q.shared.entries := List.mem_of_find?_eq_some found
    have here : pid ∈ pids := by simpa using List.find?_some found
    have waits : pid ∈ q.waiting :=
      List.mem_append_left _ (List.mem_flatten.mpr
        ⟨pids, List.mem_map.mpr ⟨(queue, pids), member, rfl⟩, here⟩)
    rw [if_pos waits]
    exact modify_shifts sound ((sound.ordered.get?_eq_some_iff _ _).mpr member) _ (taken pids here)
  · rename_i absent
    split
    · rename_i cpu found
      obtain ⟨known, here, _⟩ := List.findIdx?_eq_some_iff_getElem.mp found
      have here : pid ∈ q.locals[cpu] := by simpa using here
      have waits : pid ∈ q.waiting :=
        List.mem_append_right _ (List.mem_flatten.mpr ⟨_, List.getElem_mem known, here⟩)
      rw [if_pos waits]
      exact modify_local_shifts sound (List.getElem?_eq_getElem known) _ (taken _ here)
    · rename_i nowhere
      have missing : pid ∉ q.waiting := by
        intro waits
        rcases List.mem_append.mp waits with shared | own
        · obtain ⟨pids, member, here⟩ := List.mem_flatten.mp shared
          obtain ⟨entry, present, rfl⟩ := List.mem_map.mp member
          have none := List.find?_eq_none.mp absent entry present
          simp [here] at none
        · obtain ⟨pids, member, here⟩ := List.mem_flatten.mp own
          have none := List.findIdx?_eq_none_iff.mp nowhere pids member
          simp [here] at none
      rw [if_neg missing]
      exact Shifts.refl sound

theorem destroyPolicyQueues_shifts :
    q.Shifts q.destroyPolicyQueues.2 [] q.destroyPolicyQueues.1 where
  waiting := by
    have split : ∀ entries : List (QueueId × List Pid),
        (((entries.filter fun e => isBuiltin e.1).map (·.2)).flatten
          ++ ((entries.filter fun e => !isBuiltin e.1).map (·.2)).flatten).Perm
        (entries.map (·.2)).flatten := by
      intro entries
      rw [← List.flatten_append, ← List.map_append]
      exact ((List.filter_append_perm _ entries).map _).flatten
    have step := split q.shared.entries
    simp only [destroyPolicyQueues, waiting, Table.filter, Table.values, List.append_nil]
    calc ((q.shared.entries.filter fun e => isBuiltin e.1).map (·.2)).flatten ++ q.locals.flatten
          ++ ((q.shared.entries.filter fun e => !isBuiltin e.1).map (·.2)).flatten
        |>.Perm (((q.shared.entries.filter fun e => isBuiltin e.1).map (·.2)).flatten
          ++ ((q.shared.entries.filter fun e => !isBuiltin e.1).map (·.2)).flatten
          ++ q.locals.flatten) := by
          simp only [List.append_assoc]
          exact List.Perm.append_left _ List.perm_append_comm
      _ |>.Perm ((q.shared.entries.map (·.2)).flatten ++ q.locals.flatten) := step.append_right _
  cpus := rfl
  wellFormed :=
    { ordered := sound.ordered.filter _
      global := by
        have kept := Table.get?_filter_key q.shared isBuiltin globalQueue
        have builtin : isBuiltin globalQueue = true := by decide
        rw [builtin, if_pos rfl] at kept
        simpa [destroyPolicyQueues, Table.contains, kept] using sound.global
      flags := sound.flags }

end

/-! Which shared queues there are. -/

def Covers (q r : Queues) : Prop :=
  ∀ queue, q.shared.contains queue = true → r.shared.contains queue = true

def SameNumbers (q r : Queues) : Prop := ∀ queue, r.shared.contains queue = q.shared.contains queue

def OnlyBuiltin (q : Queues) : Prop :=
  ∀ queue, q.shared.contains queue = true → isBuiltin queue = true

variable {q r : Queues}

theorem SameNumbers.refl (q : Queues) : q.SameNumbers q := fun _ => rfl

theorem SameNumbers.trans {s : Queues} (first : q.SameNumbers r) (later : r.SameNumbers s) :
    q.SameNumbers s := fun queue => (later queue).trans (first queue)

theorem SameNumbers.onlyBuiltin (same : q.SameNumbers r) (only : q.OnlyBuiltin) : r.OnlyBuiltin :=
  fun queue present => only queue ((same queue).symm.trans present)

theorem SameNumbers.covers (same : q.SameNumbers r) : q.Covers r := fun queue present =>
  (same queue).trans present

theorem modify_sameNumbers (queue : QueueId) (f : List Pid → List Pid) :
    q.SameNumbers { q with shared := q.shared.modify queue f } :=
  fun other => Table.contains_modify q.shared queue other f

theorem push_sameNumbers {queue : QueueId} {cpu : CpuId} {pid : Pid}
    (pushed : q.push queue cpu pid = .ok r) : q.SameNumbers r := by
  unfold push at pushed
  split at pushed
  · split at pushed
    · cases Except.ok.inj pushed
      exact fun _ => rfl
    · cases pushed
  · split at pushed
    · cases Except.ok.inj pushed
      exact modify_sameNumbers _ _
    · cases pushed

theorem pop_sameNumbers {queue : QueueId} {next : Option Pid} (popped : q.pop queue = .ok (next, r)) :
    q.SameNumbers r := by
  unfold pop at popped
  split at popped
  · cases popped
  · cases Except.ok.inj popped
    exact modify_sameNumbers _ _

theorem moveToLocal_sameNumbers {queue : QueueId} {cpu : CpuId} {moved : Bool}
    (done : q.moveToLocal queue cpu = .ok (moved, r)) : q.SameNumbers r := by
  unfold moveToLocal at done
  split at done
  · cases done
  · split at done
    · cases done
    · rename_i popped
      cases Except.ok.inj done
      exact pop_sameNumbers popped
    · rename_i popped
      cases Except.ok.inj done
      exact fun other => pop_sameNumbers popped other

theorem moveToLocal_ok {queue : QueueId} {cpu : CpuId} (present : q.shared.contains queue = true)
    (known : cpu < q.cpus) : ∃ moved r, q.moveToLocal queue cpu = .ok (moved, r) := by
  obtain ⟨pids, found⟩ := Table.contains_iff_exists.mp present
  unfold moveToLocal pop
  rw [if_neg (Nat.not_le_of_lt known), found]
  cases pids with
  | nil => exact ⟨_, _, rfl⟩
  | cons pid rest => exact ⟨_, _, rfl⟩

theorem remove_sameNumbers (pid : Pid) : q.SameNumbers (q.remove pid).2 := by
  unfold remove
  split
  · exact modify_sameNumbers _ _
  · split <;> exact fun _ => rfl

theorem selectCpu_eq (previous : CpuId) : ∃ idle, (q.selectCpu previous).2 = { q with idle } := by
  have claim : ∀ cpu, ∃ idle, (q.claim cpu).2 = { q with idle } := by
    intro cpu
    unfold Queues.claim
    split
    · exact ⟨_, rfl⟩
    · exact ⟨_, rfl⟩
  have claimAny : ∀ s : Queues, ∃ idle, s.claimAny.2 = { s with idle } := by
    intro s
    unfold Queues.claimAny
    split
    · exact ⟨_, rfl⟩
    · exact ⟨_, rfl⟩
  have first : ∃ idle, (if previous < q.cpus then q.claim previous else (false, q)).2 =
      { q with idle } := by
    split
    · exact claim previous
    · exact ⟨_, rfl⟩
  unfold selectCpu
  generalize (if previous < q.cpus then q.claim previous else (false, q)) = tried at first ⊢
  obtain ⟨claimed, r⟩ := tried
  obtain ⟨idle, same⟩ := first
  obtain ⟨idle', other⟩ := claimAny r
  dsimp only at same
  subst same
  cases claimed with
  | true => exact ⟨idle, rfl⟩
  | false =>
    simp only [Bool.false_eq_true, if_false]
    split <;> rename_i found <;> rw [found] at other <;> exact ⟨idle', other⟩

theorem selectCpu_shared (previous : CpuId) : (q.selectCpu previous).2.shared = q.shared := by
  obtain ⟨idle, same⟩ := q.selectCpu_eq previous
  rw [same]

theorem selectCpu_lt (sound : q.WellFormed) {previous : CpuId} (known : previous < q.cpus) :
    (q.selectCpu previous).1.1 < q.cpus := by
  have claim : (q.claim previous).2.cpus = q.cpus ∧ (q.claim previous).2.idle.length = q.cpus := by
    unfold claim
    split
    · exact ⟨rfl, (List.length_set ..).trans sound.flags⟩
    · exact ⟨rfl, sound.flags⟩
  unfold selectCpu
  rw [if_pos known]
  generalize q.claim previous = tried at claim ⊢
  obtain ⟨claimed, r⟩ := tried
  obtain ⟨cpus, flags⟩ := claim
  cases claimed with
  | true => exact known
  | false =>
    simp only [Bool.false_eq_true, if_false, claimAny]
    cases found : r.idle.findIdx? id with
    | none => exact Nat.lt_of_le_of_lt (Nat.min_le_left ..) known
    | some cpu =>
      obtain ⟨inside, _⟩ := List.findIdx?_eq_some_iff_getElem.mp found
      exact flags ▸ inside

theorem create_covers (id : Int64) : q.Covers (q.create id).2 := by
  have attempt : ∀ (s : Queues) (queue : QueueId), s.Covers
      (if s.shared.contains queue then
        ((.error (.queueExists queue), s) : Except ClassError QueueId × Queues)
      else (.ok queue, { s with shared := s.shared.insert queue [] })).2 := by
    intro s queue
    split
    · exact fun _ present => present
    · intro other present
      simp only [Table.contains_insert, present, Bool.or_true]
  unfold create
  split
  · exact attempt { q with nextFree := q.firstFree q.shared.size q.nextFree } _
  · split
    · exact fun _ present => present
    · exact attempt q _

theorem destroyPolicyQueues_builtin {queue : QueueId}
    (present : q.destroyPolicyQueues.2.shared.contains queue = true) : isBuiltin queue = true := by
  have kept := Table.get?_filter_key q.shared isBuiltin queue
  by_cases builtin : isBuiltin queue = true
  · exact builtin
  · rw [if_neg builtin] at kept
    rw [Table.contains_eq] at present
    simp only [destroyPolicyQueues] at present
    rw [kept] at present
    cases present

end LoadableSched.Queues
