import LoadableSched.Proofs.Class.Migration

/-!
What stands in line on each queue, in order: how callbacks, placements and the removal of a policy move
tasks between lines and append them. What is taken always comes from the front, what is put goes to the
end.
-/

namespace LoadableSched

variable {ω α : Type}

namespace Queues

variable {q r : Queues}

def line (q : Queues) (queue : QueueId) : List Pid := (q.shared.get? queue).getD []

def ownLine (q : Queues) (cpu : CpuId) : List Pid := q.locals[cpu]?.getD []

theorem line_of_absent {queue : QueueId} (absent : q.shared.contains queue = false) :
    q.line queue = [] := by
  rw [Table.contains_eq, Option.isSome_eq_false_iff, Option.isNone_iff_eq_none] at absent
  rw [line, absent]
  rfl

theorem line_modify {queue : QueueId} (present : q.shared.contains queue = true)
    (f : List Pid → List Pid) (other : QueueId) :
    ({ q with shared := q.shared.modify queue f } : Queues).line other =
      if other = queue then f (q.line other) else q.line other := by
  obtain ⟨pids, found⟩ := Table.contains_iff_exists.mp present
  simp only [line, Table.get?_modify]
  split
  · rename_i same
    rw [same, found]
    rfl
  · rfl

theorem ownLine_modify {cpu : CpuId} (known : cpu < q.cpus) (f : List Pid → List Pid)
    (other : CpuId) :
    ({ q with locals := q.locals.modify cpu f } : Queues).ownLine other =
      if other = cpu then f (q.ownLine other) else q.ownLine other := by
  simp only [ownLine, List.getElem?_modify]
  by_cases same : cpu = other
  · subst same
    rw [List.getElem?_eq_getElem known]
    simp
  · simp [same, Ne.symm same]

theorem Covers.has (covers : q.Covers r) {queue : QueueId} (known : q.has queue = true) :
    r.has queue = true := by
  simp only [Queues.has, Bool.or_eq_true] at known ⊢
  exact known.imp id (covers queue)

theorem push_lines {queue : QueueId} {cpu : CpuId} {pid : Pid} (pushed : q.push queue cpu pid = .ok r) :
    (∀ other, r.line other =
      q.line other ++ if queue ≠ localQueue ∧ other = queue then [pid] else []) ∧
    (∀ other, r.ownLine other =
      q.ownLine other ++ if queue = localQueue ∧ other = cpu then [pid] else []) := by
  unfold push at pushed
  split at pushed
  · rename_i own
    split at pushed
    · rename_i known
      cases Except.ok.inj pushed
      refine ⟨fun other => by simp [line, own], fun other => ?_⟩
      rw [ownLine_modify known]
      by_cases same : other = cpu <;> simp [own, same]
    · cases pushed
  · rename_i shared
    split at pushed
    · rename_i present
      cases Except.ok.inj pushed
      refine ⟨fun other => ?_, fun other => by simp [ownLine, shared]⟩
      rw [line_modify present]
      by_cases same : other = queue <;> simp [shared, same]
    · cases pushed

/-- From `q` to `r` tasks are moved from the fronts of shared queues, each named with its queue, to the end
of the line of a processor. -/
structure Flows (cpu : CpuId) (q : Queues) (moved : List (QueueId × Pid)) (r : Queues) : Prop where
  lines : ∀ queue, q.line queue = (moved.filter (·.1 = queue)).map (·.2) ++ r.line queue
  own : ∀ other, r.ownLine other = q.ownLine other ++ if other = cpu then moved.map (·.2) else []

namespace Flows

variable {cpu : CpuId} {xs ys : List (QueueId × Pid)}

theorem still (lines : ∀ queue, r.line queue = q.line queue)
    (own : ∀ other, r.ownLine other = q.ownLine other) : q.Flows cpu [] r where
  lines queue := (lines queue).symm
  own other := by simpa using own other

theorem trans {s : Queues} (first : q.Flows cpu xs r) (later : r.Flows cpu ys s) :
    q.Flows cpu (xs ++ ys) s where
  lines queue := by
    rw [first.lines, later.lines, List.filter_append, List.map_append, List.append_assoc]
  own other := by
    rw [later.own, first.own]
    split <;> simp

theorem after_still {s : Queues} (first : q.Flows cpu [] r) (later : r.Flows cpu ys s) :
    q.Flows cpu ys s := by simpa using first.trans later

end Flows

theorem create_flows (cpu : CpuId) (id : Int64) : q.Flows cpu [] (q.create id).2 := by
  have attempt : ∀ (s : Queues) (queue : QueueId), s.Flows cpu []
      (if s.shared.contains queue then
        ((.error (.queueExists queue), s) : Except ClassError QueueId × Queues)
      else (.ok queue, { s with shared := s.shared.insert queue [] })).2 := by
    intro s queue
    split
    · exact .still (fun _ => rfl) fun _ => rfl
    · rename_i fresh
      refine .still (fun other => ?_) fun _ => rfl
      by_cases same : other = queue
      · subst same
        have nobody : s.line other = [] := line_of_absent (by simpa using fresh)
        rw [nobody]
        simp [line, Table.get?_insert]
      · simp [line, Table.get?_insert, same]
  unfold create
  split
  · have numbered : q.Flows cpu [] { q with nextFree := q.firstFree q.shared.size q.nextFree } :=
      .still (fun _ => rfl) fun _ => rfl
    exact numbered.after_still (attempt _ _)
  · split
    · exact .still (fun _ => rfl) fun _ => rfl
    · exact attempt q _

theorem selectCpu_flows (cpu previous : CpuId) : q.Flows cpu [] (q.selectCpu previous).2 := by
  obtain ⟨idle, same⟩ := q.selectCpu_eq previous
  rw [same]
  exact .still (fun _ => rfl) fun _ => rfl

def headIf (q : Queues) (queue : QueueId) (moved : Bool) : List (QueueId × Pid) :=
  if moved then (q.line queue).head?.toList.map (queue, ·) else []

theorem moveToLocal_flows {queue : QueueId} {cpu : CpuId} {moved : Bool}
    (done : q.moveToLocal queue cpu = .ok (moved, r)) : q.Flows cpu (q.headIf queue moved) r := by
  unfold moveToLocal pop at done
  split at done
  · cases done
  rename_i known
  cases found : q.shared.get? queue with
  | none => simp [found] at done
  | some pids =>
    have present : q.shared.contains queue = true := Table.contains_iff_exists.mpr ⟨pids, found⟩
    have here : q.line queue = pids := by rw [line, found]; rfl
    have lines : ∀ other, ({ q with shared := q.shared.modify queue List.tail } : Queues).line other =
        if other = queue then (q.line other).tail else q.line other := line_modify present _
    cases pids with
    | nil =>
      simp only [found, List.head?_nil] at done
      cases Except.ok.inj done
      refine .still (fun other => (lines other).trans ?_) fun _ => rfl
      by_cases same : other = queue <;> simp [same, here]
    | cons pid rest =>
      simp only [found, List.head?_cons] at done
      cases Except.ok.inj done
      have inside : cpu < q.cpus := Nat.lt_of_not_le known
      refine ⟨fun other => ?_, fun other => ?_⟩
      · refine Eq.trans ?_ (congrArg (_ ++ ·) (lines other).symm)
        by_cases same : other = queue
        · simp [same, here, headIf]
        · simp [same, Ne.symm same, here, headIf]
      · refine (ownLine_modify (q := q) inside (· ++ [pid]) other).trans ?_
        by_cases same : other = cpu <;> simp [same, here, headIf]

end Queues

namespace Callback

def moves (cpu : CpuId) (now : Nanos) : Callback ω α → Progress ω → List (QueueId × Pid)
  | done _, _ => []
  | createQueue id next, p =>
    (next (p.queues.create id).1).moves cpu now { p with queues := (p.queues.create id).2 }
  | selectCpu previous next, p =>
    (next (p.queues.selectCpu previous).1).moves cpu now
      { p with queues := (p.queues.selectCpu previous).2 }
  | dispatch pid queue slice next, p => next.moves cpu now (p.dispatch ⟨pid, queue, slice⟩)
  | consume queue next, p =>
    p.queues.headIf queue (p.consume queue cpu).1 ++
      (next (p.consume queue cpu).1).moves cpu now (p.consume queue cpu).2
  | queued queue next, p => (next (p.queued queue cpu)).moves cpu now p
  | moment next, p => (next ⟨cpu, p.queues.cpus, now⟩).moves cpu now p
  | fail message next, p => next.moves cpu now (p.record (.policy message))
  | readMemory next, p => (next p.memory).moves cpu now p
  | writeMemory memory next, p => next.moves cpu now { p with memory }

theorem run_flows (cpu : CpuId) (now : Nanos) (c : Callback ω α) (p : Progress ω) :
    p.queues.Flows cpu (c.moves cpu now p) (c.run cpu now p).2.queues := by
  induction c generalizing p with
  | done value => exact .still (fun _ => rfl) fun _ => rfl
  | createQueue id next ih => exact (Queues.create_flows cpu id).after_still (ih _ { p with queues := _ })
  | selectCpu previous next ih =>
    exact (Queues.selectCpu_flows cpu previous).after_still (ih _ { p with queues := _ })
  | dispatch pid queue slice next ih => exact p.dispatch_queues ⟨pid, queue, slice⟩ ▸ ih _
  | consume queue next ih =>
    have moved : p.queues.Flows cpu (p.queues.headIf queue (p.consume queue cpu).1)
        (p.consume queue cpu).2.queues := by
      unfold Progress.consume
      split
      · rename_i done
        exact Queues.moveToLocal_flows done
      · exact .still (fun _ => rfl) fun _ => rfl
    exact moved.trans (ih _ _)
  | queued queue next ih => exact ih _ p
  | moment next ih => exact ih _ p
  | fail message next ih => exact ih (p.record (.policy message))
  | readMemory next ih => exact ih _ p
  | writeMemory memory next ih => exact ih { p with memory }

end Callback

def Progress.Known (p : Progress ω) : Prop := ∀ x ∈ p.placements, p.queues.has x.queue = true

theorem Progress.Known.of_covers {p r : Progress ω} (known : p.Known) (same : r.placements = p.placements)
    (covers : p.queues.Covers r.queues) : r.Known :=
  fun x member => covers.has (known x (same ▸ member))

theorem Callback.run_known (cpu : CpuId) (now : Nanos) (c : Callback ω α) {p : Progress ω}
    (known : p.Known) : (c.run cpu now p).2.Known := by
  induction c generalizing p with
  | done value => exact known
  | createQueue id next ih => exact ih _ (known.of_covers rfl (Queues.create_covers id))
  | selectCpu previous next ih =>
    refine ih _ (known.of_covers rfl fun queue present => ?_)
    exact (congrArg (·.contains queue) (Queues.selectCpu_shared previous)).trans present
  | dispatch pid queue slice next ih =>
    refine ih ?_
    unfold Progress.dispatch
    split
    · rename_i here
      intro x member
      rcases List.mem_append.mp member with before | new
      · exact known x before
      · exact List.mem_singleton.mp new ▸ here
    · exact known
  | consume queue next ih =>
    refine ih _ (known.of_covers ?_ (p.consume_covers queue cpu))
    split <;> rfl
  | queued queue next ih => exact ih _ known
  | moment next ih => exact ih _ known
  | fail message next ih => exact ih (p := p.record (.policy message)) known
  | readMemory next ih => exact ih _ known
  | writeMemory memory next ih => exact ih (p := { p with memory }) known

namespace SchedClass

variable {c d e : SchedClass ω} {loose : List Pid}

/-- From `c` to `d` these placements were made for a processor. -/
structure Puts (cpu : CpuId) (c : SchedClass ω) (made : List Placement) (d : SchedClass ω) : Prop where
  lines : ∀ queue, d.queues.line queue = c.queues.line queue ++
    (made.filter fun p => p.queue = queue ∧ queue ≠ localQueue).map (·.pid)
  own : ∀ other, d.queues.ownLine other = c.queues.ownLine other ++
    if other = cpu then (made.filter (·.queue = localQueue)).map (·.pid) else []
  states : ∀ pid, d.state? pid = if pid ∈ made.map (·.pid) then some .queued else c.state? pid
  covers : c.queues.Covers d.queues

namespace Puts

variable {cpu : CpuId} {xs ys : List Placement}

theorem refl (c : SchedClass ω) : Puts cpu c [] c := ⟨by simp, by simp, by simp, fun _ => id⟩

theorem trans (first : Puts cpu c xs d) (later : Puts cpu d ys e) : Puts cpu c (xs ++ ys) e where
  lines queue := by
    rw [later.lines, first.lines, List.filter_append, List.map_append, List.append_assoc]
  own other := by
    rw [later.own, first.own]
    split <;> simp
  states pid := by
    rw [later.states, first.states]
    by_cases before : pid ∈ xs.map (·.pid) <;> by_cases after : pid ∈ ys.map (·.pid) <;>
      simp only [List.map_append, List.mem_append, before, after, if_true, if_false, or_self, or_true,
        true_or]
  covers queue present := later.covers queue (first.covers queue present)

end Puts

/-- The placements that are made: those from the front of which each names a registered task that waits
nowhere and was not placed before. -/
def placeable (c : SchedClass ω) (placed : List Pid) : List Placement → List Placement
  | [] => []
  | p :: rest =>
    if c.tasks.contains p.pid ∧ p.pid ∉ placed ∧ p.pid ∉ c.queues.waiting then
      p :: c.placeable (placed ++ [p.pid]) rest
    else []

theorem mem_of_placeable {placed : List Pid} {placements : List Placement} {p : Placement}
    (made : p ∈ c.placeable placed placements) : p ∈ placements := by
  induction placements generalizing placed with
  | nil => exact made
  | cons first rest ih =>
    unfold placeable at made
    split at made
    · rcases List.mem_cons.mp made with rfl | later
      · exact List.mem_cons_self
      · exact List.mem_cons_of_mem _ (ih later)
    · exact absurd made List.not_mem_nil

theorem placeable_congr {placed : List Pid}
    (registered : ∀ pid, d.tasks.contains pid = c.tasks.contains pid)
    (waits : ∀ pid, pid ∉ placed → (pid ∈ d.queues.waiting ↔ pid ∈ c.queues.waiting))
    (placements : List Placement) : d.placeable placed placements = c.placeable placed placements := by
  induction placements generalizing placed with
  | nil => rfl
  | cons p rest ih =>
    have same : (d.tasks.contains p.pid ∧ p.pid ∉ placed ∧ p.pid ∉ d.queues.waiting) ↔
        (c.tasks.contains p.pid ∧ p.pid ∉ placed ∧ p.pid ∉ c.queues.waiting) := by
      rw [registered]
      exact and_congr_right fun _ => and_congr_right fun fresh => not_congr (waits p.pid fresh)
    have later : d.placeable (placed ++ [p.pid]) rest = c.placeable (placed ++ [p.pid]) rest :=
      ih fun pid fresh => waits pid fun member => fresh (List.mem_append_left _ member)
    unfold placeable
    simp only [same, later]

theorem push_has {q : Queues} {queue : QueueId} (known : q.has queue = true) {cpu : CpuId}
    (processor : cpu < q.cpus) (pid : Pid) : ∃ r, q.push queue cpu pid = .ok r := by
  simp only [Queues.has, Bool.or_eq_true, decide_eq_true_eq] at known
  by_cases own : queue = localQueue
  · exact ⟨_, (if_pos own).trans (if_pos processor)⟩
  · exact Queues.push_ok own (known.resolve_left own) cpu pid

theorem placeOne_puts {cpu : CpuId} {placed : List Pid} {p : Placement}
    (made : c.placeOne cpu placed p = .ok d) : Puts cpu c [p] d := by
  obtain ⟨registered, _, _, r, pushed, rfl⟩ := placeOne_inv made
  refine ⟨fun queue => ?_, fun other => ?_, fun pid => ?_, (Queues.push_sameNumbers pushed).covers⟩
  · rw [(Queues.push_lines pushed).1 queue]
    by_cases same : p.queue = queue
    · subst same
      by_cases own : p.queue = localQueue <;> simp [own]
    · simp [same, Ne.symm same]
  · rw [(Queues.push_lines pushed).2 other]
    by_cases own : p.queue = localQueue <;> simp [own]
  · obtain ⟨slot, found⟩ := Table.contains_iff_exists.mp registered
    simp only [state?, Table.get?_modify, List.map_cons, List.map_nil, List.mem_singleton]
    by_cases same : pid = p.pid
    · simp [same, found]
    · simp [same]

theorem placeOne_cases (agrees : c.Agrees loose) {cpu : CpuId} (processor : cpu < c.cpus)
    {p : Placement} (known : c.queues.has p.queue = true) (placed : List Pid) :
    (c.tasks.contains p.pid = true ∧ p.pid ∉ placed ∧ p.pid ∉ c.queues.waiting ∧
      ∃ d, c.placeOne cpu placed p = .ok d ∧ Puts cpu c [p] d ∧
        d.queues.waiting.Perm (p.pid :: c.queues.waiting)) ∨
    (¬ (c.tasks.contains p.pid = true ∧ p.pid ∉ placed ∧ p.pid ∉ c.queues.waiting) ∧
      ∃ reason, c.placeOne cpu placed p = .error reason) := by
  obtain ⟨r, pushed⟩ := push_has known processor p.pid
  by_cases registered : c.tasks.contains p.pid = true
  · by_cases fresh : p.pid ∉ placed ∧ p.pid ∉ c.queues.waiting
    · left
      obtain ⟨d, made⟩ : ∃ d, c.placeOne cpu placed p = .ok d := by
        simp [placeOne, registered, Queues.contains, fresh.1, fresh.2, pushed]
      obtain ⟨_, _, _, s, pushed, rfl⟩ := placeOne_inv made
      exact ⟨registered, fresh.1, fresh.2, _, made, placeOne_puts made,
        (Queues.push_shifts agrees.queues pushed).waiting_gain⟩
    · right
      have taken : (placed.contains p.pid || c.queues.contains p.pid) = true := by
        simp only [Queues.contains, Bool.or_eq_true, List.contains_iff_mem]
        by_cases before : p.pid ∈ placed
        · exact .inl before
        · exact .inr (Decidable.not_not.mp fun absent => fresh ⟨before, absent⟩)
      refine ⟨fun all => fresh all.2, .doubleDispatch p.pid, ?_⟩
      simp only [placeOne, registered, taken, Bool.not_true, Bool.false_eq_true, if_false, if_true]
  · right
    exact ⟨fun all => registered all.1, .unknownTask p.pid, by simp [placeOne, registered]⟩

theorem place_puts (agrees : c.Agrees loose) {cpu : CpuId} (processor : cpu < c.cpus)
    {placements : List Placement} (known : ∀ p ∈ placements, c.queues.has p.queue = true)
    (placed : List Pid) :
    Puts cpu c (c.placeable placed placements) (c.place cpu placed placements).2 ∧
      ((∃ all, (c.place cpu placed placements).1 = .ok all) ↔
        c.placeable placed placements = placements) := by
  induction placements generalizing c placed with
  | nil => exact ⟨.refl c, by simp [place, placeable]⟩
  | cons p rest ih =>
    unfold place placeable
    rcases placeOne_cases agrees processor (known p List.mem_cons_self) placed with
      ⟨registered, fresh, absent, d, made, puts, waiting⟩ | ⟨unfit, reason, failed⟩
    · obtain ⟨places, _⟩ := placeOne_places agrees made
      have numbers : ∀ q ∈ rest, d.queues.has q.queue = true := fun q member =>
        puts.covers.has (known q (List.mem_cons_of_mem _ member))
      obtain ⟨later, iff⟩ := ih (places.agrees agrees) (places.cpus.symm ▸ processor) numbers
        (placed ++ [p.pid])
      have same : d.placeable (placed ++ [p.pid]) rest = c.placeable (placed ++ [p.pid]) rest := by
        refine placeable_congr places.contains (fun pid new => ?_) rest
        have other : pid ≠ p.pid := fun is => new (List.mem_append_right _ (by simp [is]))
        rw [waiting.mem_iff, List.mem_cons, or_iff_right other]
      simp only [made, registered, fresh, absent, not_false_eq_true, and_self, if_true]
      rw [same] at later iff
      exact ⟨puts.trans later, by simpa using iff⟩
    · simp only [failed, if_neg unfit]
      exact ⟨.refl c, by simp⟩

/-! The removal of a policy. -/

theorem enqueueGlobal_lines {pid : Pid} (made : c.enqueueGlobal pid = .ok d) :
    (∀ queue, d.queues.line queue =
      c.queues.line queue ++ if queue = globalQueue then [pid] else []) ∧
    ∀ cpu, d.queues.ownLine cpu = c.queues.ownLine cpu := by
  obtain ⟨r, pushed, rfl⟩ := enqueueGlobal_inv made
  have apart : globalQueue ≠ localQueue := by decide
  obtain ⟨lines, own⟩ := Queues.push_lines pushed
  exact ⟨fun queue => by simp [lines queue, apart], fun cpu => by simp [own cpu, apart]⟩

theorem enqueueAllGlobal_lines (present : c.queues.shared.contains globalQueue = true)
    (pids : List Pid) :
    (∀ queue, (c.enqueueAllGlobal pids).queues.line queue =
      c.queues.line queue ++ if queue = globalQueue then pids else []) ∧
    ∀ cpu, (c.enqueueAllGlobal pids).queues.ownLine cpu = c.queues.ownLine cpu := by
  induction pids generalizing c with
  | nil => simp [enqueueAllGlobal]
  | cons pid rest ih =>
    obtain ⟨r, pushed⟩ := Queues.push_ok (by decide) present 0 pid
    obtain ⟨d, made⟩ : ∃ d, c.enqueueGlobal pid = .ok d := ⟨_, by rw [enqueueGlobal, pushed]⟩
    have unfolded : c.enqueueAllGlobal (pid :: rest) = d.enqueueAllGlobal rest := by
      simp only [enqueueAllGlobal, List.foldl_cons, made, Except.toOption, Option.getD_some]
    obtain ⟨lines, own⟩ := enqueueGlobal_lines made
    obtain ⟨later, still⟩ := ih ((enqueueGlobal_sameNumbers made globalQueue).trans present)
    rw [unfolded]
    refine ⟨fun queue => ?_, fun cpu => (still cpu).trans (own cpu)⟩
    rw [later, lines]
    by_cases here : queue = globalQueue <;> simp [here]

end SchedClass

namespace Queues

variable {q : Queues}

def policyNumbers (q : Queues) : List QueueId := (q.shared.filter fun queue _ => !isBuiltin queue).keys

theorem policyNumbers_spec (sound : q.WellFormed) :
    q.policyNumbers.Pairwise (· < ·) ∧ ∀ queue, queue ∈ q.policyNumbers ↔
      q.shared.contains queue = true ∧ isBuiltin queue = false := by
  refine ⟨sound.ordered.filter _, fun queue => ?_⟩
  rw [policyNumbers, ← Table.contains_iff_mem_keys, Table.contains_eq]
  have kept := Table.get?_filter_key q.shared (fun queue => !isBuiltin queue) queue
  rw [kept, Table.contains_eq]
  cases isBuiltin queue <;> simp

theorem destroyPolicyQueues_lines (sound : q.WellFormed) :
    q.destroyPolicyQueues.1 = q.policyNumbers.flatMap q.line ∧
      (∀ queue, isBuiltin queue = true → q.destroyPolicyQueues.2.line queue = q.line queue) ∧
      ∀ cpu, q.destroyPolicyQueues.2.ownLine cpu = q.ownLine cpu := by
  refine ⟨?_, fun queue builtin => ?_, fun _ => rfl⟩
  · let kept := (q.shared.filter fun queue _ => !isBuiltin queue).entries
    have values : kept.map (·.2) = (kept.map (·.1)).map q.line := by
      rw [List.map_map]
      refine List.map_congr_left fun entry member => ?_
      have found := (sound.ordered.get?_eq_some_iff entry.1 entry.2).mpr (List.mem_filter.mp member).1
      simp only [Function.comp_apply, line, found, Option.getD_some]
    exact congrArg List.flatten values
  · have kept := Table.get?_filter_key q.shared isBuiltin queue
    rw [if_pos builtin] at kept
    simp only [line, destroyPolicyQueues, kept]

end Queues

namespace SchedClass

variable {c : SchedClass ω}

/-- The tasks of a policy's queues go to the end of the global line; no other line changes. -/
theorem requeueOrphans_lines (agrees : c.Agrees []) :
    c.requeueOrphans.queues.line globalQueue =
      c.queues.line globalQueue ++ c.queues.policyNumbers.flatMap c.queues.line ∧
    ∀ cpu, c.requeueOrphans.queues.ownLine cpu = c.queues.ownLine cpu := by
  obtain ⟨loosened, split⟩ := orphaned_agrees agrees
  have nobody : c.orphaned.stranded c.queues.destroyPolicyQueues.1 = [] := by
    refine List.eq_nil_iff_forall_not_mem.mpr fun pid left => ?_
    obtain ⟨queued, fresh, absent⟩ := (mem_stranded loosened.tasks _ _).mp left
    have waits := (agrees.waits pid queued).resolve_right List.not_mem_nil
    exact (List.mem_append.mp (split.mem_iff.mpr waits)).elim fresh absent
  have whole : c.requeueOrphans = c.orphaned.enqueueAllGlobal
      (c.queues.destroyPolicyQueues.1 ++ c.orphaned.stranded c.queues.destroyPolicyQueues.1) := rfl
  obtain ⟨orphans, kept, own⟩ := Queues.destroyPolicyQueues_lines agrees.queues
  obtain ⟨lines, still⟩ := enqueueAllGlobal_lines loosened.queues.global
    (c.queues.destroyPolicyQueues.1 ++ c.orphaned.stranded c.queues.destroyPolicyQueues.1)
  rw [whole]
  refine ⟨?_, fun cpu => (still cpu).trans (own cpu)⟩
  rw [lines, if_pos rfl, nobody, List.append_nil, orphans]
  exact congrArg (· ++ _) (kept globalQueue (by decide))

end SchedClass

end LoadableSched
