import LoadableSched.Class.Inquiries
import LoadableSched.Proofs.Class.Contents
import Mathlib.Data.List.Basic

/-!
A ledger of a queue: one ticket for each time that a task was put on it, in the order in which that
happened, with what became of the task. An operation that lets tasks join the line at its end, takes its
head to a processor or removes a task from it keeps the ledger in order.
-/

namespace LoadableSched

/-- What became of a task that was put on a queue. -/
inductive Fate where
  | waiting
  | started (cpu : CpuId)
  | removed
  /-- It left the queue in some other way. -/
  | lost
deriving DecidableEq, Repr

structure Ticket where
  pid : Pid
  fate : Fate
deriving DecidableEq, Repr

namespace Ticket

def waiting? (t : Ticket) : Option Pid := if t.fate = .waiting then some t.pid else none

def started? (t : Ticket) : Option (Pid × CpuId) :=
  match t.fate with
  | .started cpu => some (t.pid, cpu)
  | _ => none

theorem waiting?_eq_some {t : Ticket} {pid : Pid} : t.waiting? = some pid ↔ t = ⟨pid, .waiting⟩ := by
  obtain ⟨other, fate⟩ := t
  unfold waiting?
  split <;> rename_i waits
  · cases waits
    simp
  · refine iff_of_false nofun fun same => waits ?_
    rw [same]

theorem waiting?_eq_none {t : Ticket} : t.waiting? = none ↔ t.fate ≠ .waiting := by
  unfold waiting?
  split <;> simp [*]

theorem started?_of_waiting {t : Ticket} (waits : t.fate = .waiting) : t.started? = none := by
  unfold started?
  rw [waits]

end Ticket

variable {ω : Type}

namespace SchedClass

def Inquiry.enqueued (i : Inquiry ω) (queue : QueueId) : List Pid :=
  match i.matter with
  | .enqueue .. => (i.dispatches.filter (·.queue = queue)).map (·.pid)
  | _ => []

def readied (c : SchedClass ω) : Operation ω → List Pid
  | .wake pid _ | .enqueue pid _ => if c.state? pid = some .sleeping then [pid] else []
  | .stop cpu _ runnable =>
    (c.current? cpu).toList.filter fun pid => runnable ∧ c.state? pid = some (.running cpu)
  | _ => []

def arrivals (c : SchedClass ω) (queue : QueueId) (op : Operation ω) : List Pid :=
  match c.policy with
  | some _ => (c.inquiries op).flatMap (·.enqueued queue)
  | none => if queue = globalQueue then c.readied op else []

def Starts (c : SchedClass ω) (cpu : CpuId) (pid : Pid) : Prop :=
  c.current? cpu = none ∧ (c.pickNext cpu).1.toOption = some (some pid) ∧
    (c.pickNext cpu).2.current? cpu = some pid ∧ (c.pickNext cpu).2.state? pid = some (.running cpu)

instance (c : SchedClass ω) (cpu : CpuId) : DecidablePred (c.Starts cpu) := fun _ =>
  inferInstanceAs (Decidable (_ ∧ _ ∧ _ ∧ _))

def departure (c : SchedClass ω) (op : Operation ω) (pid : Pid) : Fate :=
  match op with
  | .pickNext cpu => if c.Starts cpu pid then .started cpu else .lost
  | .removeTask other => if other = pid then .removed else .lost
  | _ => .lost

def startsOf (c : SchedClass ω) (queue : QueueId) : Operation ω → List (Pid × CpuId)
  | .pickNext cpu => ((c.queues.line queue).filter fun pid => c.Starts cpu pid).map (·, cpu)
  | _ => []

def starts (c : SchedClass ω) (queue : QueueId) : List (Operation ω) → List (Pid × CpuId)
  | [] => []
  | op :: rest => c.startsOf queue op ++ (c.step op).starts queue rest

def follow (c : SchedClass ω) (queue : QueueId) (op : Operation ω) (t : Ticket) : Ticket :=
  if t.fate = .waiting ∧ t.pid ∉ (c.step op).queues.line queue then
    { t with fate := c.departure op t.pid }
  else t

def note (c : SchedClass ω) (queue : QueueId) (op : Operation ω) (kept : List Ticket) : List Ticket :=
  kept.map (c.follow queue op) ++ (c.arrivals queue op).map (⟨·, .waiting⟩)

def keep (c : SchedClass ω) (queue : QueueId) (kept : List Ticket) : List (Operation ω) → List Ticket
  | [] => kept
  | op :: rest => (c.step op).keep queue (c.note queue op kept) rest

/-- The tickets of all that stood in line on a queue, or were put there in a run. -/
def tickets (c : SchedClass ω) (queue : QueueId) (ops : List (Operation ω)) : List Ticket :=
  c.keep queue ((c.queues.line queue).map (⟨·, .waiting⟩)) ops

def allArrivals (c : SchedClass ω) (queue : QueueId) : List (Operation ω) → List Pid
  | [] => []
  | op :: rest => c.arrivals queue op ++ (c.step op).allArrivals queue rest

/-- The tickets of a queue with this line, from which these tasks were started in this order. -/
structure Kept (kept : List Ticket) (line : List Pid) (begun : List (Pid × CpuId)) : Prop where
  accounted : ∀ t ∈ kept, t.fate ≠ .lost
  waiting : kept.filterMap Ticket.waiting? = line
  started : kept.filterMap Ticket.started? = begun
  /-- Nothing starts before what was put there earlier and waits. -/
  first : kept.Pairwise fun earlier later => earlier.fate = .waiting → later.started? = none

/-- A run serves a queue first in, first out: of the tasks that stand in line at first, and of those that
are put there then, each starts or is removed or waits, and they start in the order of that list. -/
structure InOrder (c : SchedClass ω) (queue : QueueId) (ops : List (Operation ω)) : Prop where
  placed : (c.tickets queue ops).map (·.pid) = c.queues.line queue ++ c.allArrivals queue ops
  kept : Kept (c.tickets queue ops) ((c.steps ops).queues.line queue) (c.starts queue ops)

inductive Turn (c : SchedClass ω) (queue : QueueId) (op : Operation ω) : Prop where
  | joins
      (grown : (c.step op).queues.line queue = c.queues.line queue ++ c.arrivals queue op)
      (idle : c.startsOf queue op = [])
  | starts (pid : Pid) (cpu : CpuId)
      (took : c.queues.line queue = pid :: (c.step op).queues.line queue)
      (fate : c.departure op pid = .started cpu) (began : c.startsOf queue op = [(pid, cpu)])
      (nobody : c.arrivals queue op = [])
  | leaves (pid : Pid) (left : (c.step op).queues.line queue = (c.queues.line queue).erase pid)
      (fate : c.departure op pid = .removed) (idle : c.startsOf queue op = [])
      (nobody : c.arrivals queue op = [])

variable {c : SchedClass ω} {queue : QueueId} {op : Operation ω}

theorem departure_ne_waiting (pid : Pid) : c.departure op pid ≠ .waiting := by
  unfold departure
  split
  · split <;> simp
  · split <;> simp
  · simp

theorem follow_of_mem {t : Ticket} (member : t.pid ∈ (c.step op).queues.line queue) :
    c.follow queue op t = t := if_neg fun gone => gone.2 member

theorem follow_of_settled {t : Ticket} (settled : t.waiting? = none) : c.follow queue op t = t :=
  if_neg fun gone => Ticket.waiting?_eq_none.mp settled gone.1

theorem follow_of_gone {pid : Pid} (gone : pid ∉ (c.step op).queues.line queue) :
    c.follow queue op ⟨pid, .waiting⟩ = ⟨pid, c.departure op pid⟩ := if_pos ⟨rfl, gone⟩

theorem waiting?_follow (t : Ticket) :
    (c.follow queue op t).waiting? = t.waiting?.filter (· ∈ (c.step op).queues.line queue) := by
  cases waits : t.waiting? with
  | none => rw [follow_of_settled waits, waits]; rfl
  | some pid =>
    cases Ticket.waiting?_eq_some.mp waits
    by_cases member : pid ∈ (c.step op).queues.line queue
    · rw [follow_of_mem member, waits]
      simp [Option.filter, member]
    · have left := Ticket.waiting?_eq_none (t := ⟨pid, c.departure op pid⟩).mpr (departure_ne_waiting pid)
      rw [follow_of_gone member, left]
      simp [Option.filter, member]

theorem waiting_note (kept : List Ticket) :
    (c.note queue op kept).filterMap Ticket.waiting? =
      (kept.filterMap Ticket.waiting?).filter (· ∈ (c.step op).queues.line queue) ++
        c.arrivals queue op := by
  have new : ((c.arrivals queue op).map (Ticket.mk · .waiting)).filterMap Ticket.waiting? =
      c.arrivals queue op := by
    rw [List.filterMap_map]
    exact List.filterMap_some
  rw [note, List.filterMap_append, new, List.filterMap_map, List.filter_filterMap]
  exact congrArg (fun f => List.filterMap f kept ++ _) (funext waiting?_follow)

theorem mem_line_of_waits {kept : List Ticket} {line : List Pid} {begun : List (Pid × CpuId)}
    (h : Kept kept line begun) {pid : Pid} (member : ⟨pid, .waiting⟩ ∈ kept) : pid ∈ line :=
  h.waiting ▸ List.mem_filterMap.mpr ⟨_, member, Ticket.waiting?_eq_some.mpr rfl⟩

theorem Kept.follow_cases {kept : List Ticket} {begun : List (Pid × CpuId)}
    (h : Kept kept (c.queues.line queue) begun)
    (leaves : ∀ pid ∈ c.queues.line queue, pid ∉ (c.step op).queues.line queue →
      c.departure op pid = .removed) {t : Ticket} (member : t ∈ kept) :
    c.follow queue op t = t ∨ t.fate = .waiting ∧ c.follow queue op t = ⟨t.pid, .removed⟩ := by
  cases waits : t.waiting? with
  | none => exact .inl (follow_of_settled waits)
  | some pid =>
    cases Ticket.waiting?_eq_some.mp waits
    by_cases here : pid ∈ (c.step op).queues.line queue
    · exact .inl (follow_of_mem here)
    · exact .inr ⟨rfl, by rw [follow_of_gone here, leaves pid (mem_line_of_waits h member) here]⟩

theorem Kept.rest {kept : List Ticket} {begun : List (Pid × CpuId)}
    (h : Kept kept (c.queues.line queue) begun)
    (leaves : ∀ pid ∈ c.queues.line queue, pid ∉ (c.step op).queues.line queue →
      c.departure op pid = .removed)
    (line : (c.queues.line queue).filter (· ∈ (c.step op).queues.line queue) ++
      c.arrivals queue op = (c.step op).queues.line queue) :
    Kept (c.note queue op kept) ((c.step op).queues.line queue) begun := by
  have started : ∀ t ∈ kept, (c.follow queue op t).started? = t.started? := by
    intro t member
    rcases h.follow_cases leaves member with same | ⟨waits, removed⟩
    · rw [same]
    · rw [removed, Ticket.started?_of_waiting waits]
      rfl
  have waited : ∀ t ∈ kept, (c.follow queue op t).fate = .waiting → t.fate = .waiting := by
    intro t member waits
    rcases h.follow_cases leaves member with same | ⟨before, _⟩
    · rwa [same] at waits
    · exact before
  have new : ∀ t ∈ (c.arrivals queue op).map (Ticket.mk · .waiting), t.fate = .waiting := by
    intro t member
    obtain ⟨pid, _, rfl⟩ := List.mem_map.mp member
    rfl
  refine ⟨?_, ?_, ?_, ?_⟩
  · intro t member
    rcases List.mem_append.mp member with old | arrived
    · obtain ⟨before, there, rfl⟩ := List.mem_map.mp old
      rcases h.follow_cases leaves there with same | ⟨_, removed⟩
      · rw [same]
        exact h.accounted before there
      · simp [removed]
    · simp [new t arrived]
  · rw [waiting_note, h.waiting, line]
  · have none : ((c.arrivals queue op).map (Ticket.mk · .waiting)).filterMap Ticket.started? = [] :=
      List.filterMap_eq_nil_iff.mpr fun t member => Ticket.started?_of_waiting (new t member)
    rw [note, List.filterMap_append, none, List.append_nil, List.filterMap_map, ← h.started]
    exact List.filterMap_congr started
  · refine List.pairwise_append.mpr ⟨?_, ?_, fun _ _ b member _ => Ticket.started?_of_waiting (new b member)⟩
    · refine List.pairwise_map.mpr (h.first.imp_of_mem fun {a b} before after apart waits => ?_)
      rw [started b after]
      exact apart (waited a before waits)
    · exact List.pairwise_of_forall_mem_list fun _ _ b member _ => Ticket.started?_of_waiting (new b member)

theorem Kept.begin {kept : List Ticket} {line : List Pid} {begun : List (Pid × CpuId)} {pid : Pid}
    {cpu : CpuId} (h : Kept kept (pid :: line) begun) (fresh : pid ∉ line)
    (stays : (c.step op).queues.line queue = line) (fate : c.departure op pid = .started cpu)
    (nobody : c.arrivals queue op = []) :
    Kept (c.note queue op kept) line (begun ++ [(pid, cpu)]) := by
  obtain ⟨before, t, after, rfl, settled, head, rest⟩ := List.filterMap_eq_cons_iff.mp h.waiting
  cases Ticket.waiting?_eq_some.mp head
  obtain ⟨first, later, _⟩ := List.pairwise_append.mp h.first
  -- Only the ticket of the head changes: those before it are settled, those behind it wait on.
  have unmoved : before.map (c.follow queue op) = before :=
    (List.map_congr_left fun t member => follow_of_settled (settled t member)).trans (List.map_id' _)
  have unmoved' : after.map (c.follow queue op) = after := by
    refine (List.map_congr_left fun t member => ?_).trans (List.map_id' _)
    cases waits : t.waiting? with
    | none => exact follow_of_settled waits
    | some other =>
      cases Ticket.waiting?_eq_some.mp waits
      exact follow_of_mem (stays ▸ rest ▸ List.mem_filterMap.mpr ⟨_, member, waits⟩)
  have noted : c.note queue op (before ++ ⟨pid, .waiting⟩ :: after) =
      before ++ ⟨pid, .started cpu⟩ :: after := by
    have moved : c.follow queue op ⟨pid, .waiting⟩ = ⟨pid, c.departure op pid⟩ :=
      follow_of_gone (stays ▸ fresh)
    rw [note, nobody, List.map_append, List.map_cons, unmoved, unmoved', moved, fate]
    simp
  have idle : after.filterMap Ticket.started? = [] := by
    refine List.filterMap_eq_nil_iff.mpr fun t member => ?_
    exact List.rel_of_pairwise_cons later member rfl
  have begun_eq : before.filterMap Ticket.started? = begun := by
    rw [← h.started, List.filterMap_append, List.filterMap_cons_none rfl, idle, List.append_nil]
  rw [noted]
  refine ⟨?_, ?_, ?_, ?_⟩
  · intro t member
    rcases List.mem_append.mp member with early | late
    · exact h.accounted t (List.mem_append_left _ early)
    · rcases List.mem_cons.mp late with rfl | late
      · simp
      · exact h.accounted t (List.mem_append_right _ (List.mem_cons_of_mem _ late))
  · rw [List.filterMap_append, List.filterMap_eq_nil_iff.mpr settled, List.nil_append,
      List.filterMap_cons_none rfl, rest]
  · have head : Ticket.started? ⟨pid, .started cpu⟩ = some (pid, cpu) := rfl
    rw [List.filterMap_append, begun_eq, List.filterMap_cons_some head, idle]
  · refine List.pairwise_append.mpr ⟨first, ?_, fun a member _ _ waits => ?_⟩
    · exact List.pairwise_cons.mpr ⟨by simp, (List.pairwise_cons.mp later).2⟩
    · exact absurd waits (Ticket.waiting?_eq_none.mp (settled a member))

theorem Kept.turn {kept : List Ticket} {begun : List (Pid × CpuId)}
    (h : Kept kept (c.queues.line queue) begun) (distinct : (c.queues.line queue).Nodup)
    (turn : c.Turn queue op) :
    Kept (c.note queue op kept) ((c.step op).queues.line queue) (begun ++ c.startsOf queue op) := by
  cases turn with
  | joins grown idle =>
    have stay : ∀ pid ∈ c.queues.line queue, pid ∈ (c.step op).queues.line queue := fun pid member =>
      grown ▸ List.mem_append_left _ member
    rw [idle, List.append_nil]
    refine h.rest (fun pid member gone => absurd (stay pid member) gone) ?_
    rw [List.filter_eq_self.mpr fun pid member => by simpa using stay pid member, grown]
  | starts pid cpu took fate began nobody =>
    rw [took] at h distinct
    rw [began]
    exact h.begin (List.nodup_cons.mp distinct).1 rfl fate nobody
  | leaves pid left fate idle nobody =>
    rw [idle, List.append_nil]
    refine h.rest (fun other member gone => ?_) ?_
    · have same : other = pid := by
        by_contra apart
        exact gone (left ▸ (List.mem_erase_of_ne apart).mpr member)
      rw [same, fate]
    · rw [nobody, List.append_nil, left, distinct.erase_eq_filter]
      refine List.filter_congr fun other member => ?_
      by_cases same : other = pid <;> simp [member, same]

theorem Kept.opened (line : List Pid) : Kept (line.map (Ticket.mk · .waiting)) line [] where
  accounted t member := by
    obtain ⟨pid, _, rfl⟩ := List.mem_map.mp member
    simp
  waiting := by
    rw [List.filterMap_map]
    exact List.filterMap_some
  started := by
    refine List.filterMap_eq_nil_iff.mpr fun t member => ?_
    obtain ⟨pid, _, rfl⟩ := List.mem_map.mp member
    rfl
  first := by
    refine List.pairwise_map.mpr (List.pairwise_of_forall_mem_list fun _ _ _ _ _ => ?_)
    rfl

theorem pid_follow (t : Ticket) : (c.follow queue op t).pid = t.pid := by
  unfold follow
  split <;> rfl

theorem pids_keep (kept : List Ticket) (ops : List (Operation ω)) :
    (c.keep queue kept ops).map (·.pid) = kept.map (·.pid) ++ c.allArrivals queue ops := by
  induction ops generalizing c kept with
  | nil => exact (List.append_nil _).symm
  | cons op rest ih =>
    rw [keep, ih, note, allArrivals, List.map_append, List.map_map, List.map_map, List.append_assoc]
    simp [Function.comp_def, pid_follow]

/-- The ledger of a run. -/
theorem keep_kept {kept : List Ticket} {begun : List (Pid × CpuId)} (ops : List (Operation ω))
    (h : Kept kept (c.queues.line queue) begun)
    (turns : ∀ early op later, ops = early ++ op :: later →
      ((c.steps early).queues.line queue).Nodup ∧ (c.steps early).Turn queue op) :
    Kept (c.keep queue kept ops) ((c.steps ops).queues.line queue) (begun ++ c.starts queue ops) := by
  induction ops generalizing c kept begun with
  | nil => simpa [keep, starts, steps] using h
  | cons op rest ih =>
    obtain ⟨distinct, turn⟩ := turns [] op rest rfl
    rw [starts, ← List.append_assoc]
    refine ih (h.turn distinct turn) fun early later rest split => ?_
    exact turns (op :: early) later rest (congrArg (op :: ·) split)

end SchedClass

end LoadableSched
