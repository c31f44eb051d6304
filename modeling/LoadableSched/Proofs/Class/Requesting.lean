import LoadableSched.Class.Inquiries
import LoadableSched.Proofs.Class.Contents

/-!
What comes of the requests of a callback: the error that it ends with is its first misuse, and the
placements that are made for it are those it asked for, up to the first that is at fault. Nothing is
assumed of the state of the class.
-/

namespace LoadableSched

variable {ω α β : Type}

namespace Queues

variable {q r : Queues} {cpu : CpuId}

theorem misuse?_take (queue : QueueId) :
    q.misuse? cpu (.take queue) = SchedClass.failure? (q.moveToLocal queue cpu) := by
  by_cases beyond : q.cpus ≤ cpu
  · simp [misuse?, moveToLocal, SchedClass.failure?, beyond]
  · rcases found : q.shared.get? queue with _ | _ | ⟨pid, rest⟩ <;>
      simp [misuse?, moveToLocal, pop, SchedClass.failure?, Table.contains_eq, beyond, found]

theorem create_cpus (id : Int64) : (q.create id).2.cpus = q.cpus := by
  unfold create
  dsimp only
  split
  · split <;> rfl
  · split
    · rfl
    · split <;> rfl

theorem moveToLocal_cpus {queue : QueueId} {moved : Bool}
    (done : q.moveToLocal queue cpu = .ok (moved, r)) : r.cpus = q.cpus := by
  unfold moveToLocal pop at done
  split at done
  · cases done
  · cases found : q.shared.get? queue with
    | none => simp [found] at done
    | some pids =>
      cases pids <;> simp only [found, List.head?_nil, List.head?_cons] at done <;>
        cases Except.ok.inj done
      · rfl
      · simp [Queues.cpus]

theorem push_cpus {queue : QueueId} {pid : Pid} (pushed : q.push queue cpu pid = .ok r) :
    r.cpus = q.cpus := by
  unfold push at pushed
  split at pushed <;> split at pushed <;> cases pushed
  · simp [Queues.cpus]
  · rfl

theorem mem_waiting_push {queue : QueueId} {pid : Pid} (pushed : q.push queue cpu pid = .ok r)
    (other : Pid) : other ∈ r.waiting ↔ other = pid ∨ other ∈ q.waiting := by
  unfold push at pushed
  split at pushed
  · split at pushed
    · rename_i known
      cases Except.ok.inj pushed
      have longer : ((q.locals.modify cpu (· ++ [pid])).flatten ++ []).Perm
          (q.locals.flatten ++ [pid]) :=
        flatten_modify (List.getElem?_eq_getElem known) _ (by simp)
      have one := longer.mem_iff (a := other)
      simp only [List.append_nil, List.mem_append, List.mem_singleton] at one
      simp only [waiting, List.mem_append, one]
      tauto
    · cases pushed
  · split at pushed
    · rename_i present
      cases Except.ok.inj pushed
      simp only [waiting, List.mem_append, Table.mem_flatten_modify present]
      exact or_assoc
    · cases pushed

end Queues

theorem Progress.consume_cpus (p : Progress ω) (queue : QueueId) (cpu : CpuId) :
    (p.consume queue cpu).2.queues.cpus = p.queues.cpus := by
  unfold consume
  split
  · rename_i moved
    exact Queues.moveToLocal_cpus moved
  · rfl

namespace Callback

variable (cpu : CpuId) (now : Nanos)

@[simp] theorem run_map (f : α → β) (c : Callback ω α) (p : Progress ω) :
    (f <$> c).run cpu now p = (f (c.run cpu now p).1, (c.run cpu now p).2) :=
  run_bind cpu now c (fun value => done (f value)) p

theorem run_cpus (c : Callback ω α) (p : Progress ω) :
    (c.run cpu now p).2.queues.cpus = p.queues.cpus := by
  induction c generalizing p with
  | done value => rfl
  | createQueue id next ih => exact (ih _ _).trans (Queues.create_cpus id)
  | selectCpu previous next ih =>
    obtain ⟨idle, same⟩ := p.queues.selectCpu_eq previous
    have first : (p.queues.selectCpu previous).2.cpus = p.queues.cpus := by rw [same]; rfl
    exact (ih _ { p with queues := _ }).trans first
  | dispatch pid queue slice next ih => exact (ih _).trans (congrArg Queues.cpus (p.dispatch_queues _))
  | consume queue next ih => exact (ih _ _).trans (p.consume_cpus queue cpu)
  | queued queue next ih => exact ih _ p
  | moment next ih => exact ih _ p
  | fail message next ih => exact ih (p.record (.policy message))
  | readMemory next ih => exact ih _ p
  | writeMemory memory next ih => exact ih { p with memory }

theorem run_error (c : Callback ω α) (p : Progress ω) :
    (c.run cpu now p).2.error = (p.error <|> ((c.requests cpu now p).filterMap
      fun (queues, request) => queues.misuse? cpu request).head?) := by
  induction c generalizing p with
  | done value => simp [run, requests]
  | createQueue id next ih => exact ih _ { p with queues := _ }
  | selectCpu previous next ih => exact ih _ { p with queues := _ }
  | dispatch pid queue slice next ih =>
    refine (ih _).trans ?_
    simp only [requests, List.filterMap_cons, Queues.misuse?, Progress.dispatch]
    split
    · rfl
    · cases error : p.error <;> simp [Progress.record, error]
  | consume queue next ih =>
    refine (ih _ _).trans ?_
    simp only [requests, List.filterMap_cons, Queues.misuse?_take, Progress.consume]
    cases p.queues.moveToLocal queue cpu with
    | ok answer => rfl
    | error e => cases error : p.error <;> simp [Progress.record, SchedClass.failure?, error]
  | queued queue next ih => exact ih _ p
  | moment next ih => exact ih _ p
  | fail message next ih =>
    refine (ih _).trans ?_
    cases error : p.error <;> simp [requests, Queues.misuse?, Progress.record, error]
  | readMemory next ih => exact ih _ p
  | writeMemory memory next ih => exact ih { p with memory }

theorem run_placements (c : Callback ω α) (p : Progress ω)
    (proper : (c.run cpu now p).2.error = none) :
    (c.run cpu now p).2.placements =
      p.placements ++ (c.requests cpu now p).filterMap (·.2.placement?) := by
  induction c generalizing p with
  | done value => simp [run, requests]
  | createQueue id next ih => exact ih _ { p with queues := _ } proper
  | selectCpu previous next ih => exact ih _ { p with queues := _ } proper
  | dispatch pid queue slice next ih =>
    refine (ih _ proper).trans ?_
    have fine := (run_error cpu now next _).symm.trans proper
    by_cases known : p.queues.has queue = true
    · simp [requests, Request.placement?, Progress.dispatch, known]
    · cases error : p.error <;> simp [Progress.dispatch, Progress.record, known, error] at fine
  | consume queue next ih =>
    exact (ih _ _ proper).trans (congrArg (· ++ _) (p.consume_placements queue cpu))
  | queued queue next ih => exact ih _ p proper
  | moment next ih => exact ih _ p proper
  | fail message next ih => exact ih (p.record (.policy message)) proper
  | readMemory next ih => exact ih _ p proper
  | writeMemory memory next ih => exact ih { p with memory } proper

end Callback

namespace SchedClass

variable {c d : SchedClass ω} {cpu : CpuId}

theorem invoke_cpus (c : SchedClass ω) (cpu : CpuId) (body : Callback ω α) :
    (c.resume (c.invoke cpu body).2).cpus = c.cpus := Callback.run_cpus cpu c.clock body _

theorem invoke_map (c : SchedClass ω) (cpu : CpuId) (f : α → β) (body : Callback ω α) :
    c.invoke cpu (f <$> body) = (f (c.invoke cpu body).1, (c.invoke cpu body).2) :=
  Callback.run_map cpu c.clock f body _

theorem call_flawed {body : Callback ω α} {reason : ClassError}
    (misuse : (c.invoke cpu body).2.error = some reason) :
    c.call cpu body = (.error reason, c.resume (c.invoke cpu body).2) := by
  simp only [call, misuse]

theorem call_proper {body : Callback ω α} (proper : (c.invoke cpu body).2.error = none) :
    c.call cpu body = (.ok ((c.invoke cpu body).1, (c.invoke cpu body).2.placements),
      c.resume (c.invoke cpu body).2) := by
  simp only [call, proper]

theorem placeOne_answer {p : Placement} (known : c.queues.has p.queue = true) (cpu : CpuId)
    (placed : List Pid) :
    failure? (c.placeOne cpu placed p) = c.fault? cpu placed p := by
  unfold placeOne fault? Queues.push
  simp only [Queues.has, Bool.or_eq_true, decide_eq_true_eq] at known
  split
  · rfl
  split
  · rfl
  by_cases own : p.queue = localQueue
  · by_cases inside : cpu < c.queues.cpus
    · simp [own, inside, cpus, failure?]
    · simp [own, inside, cpus, failure?]
  · have present := known.resolve_left own
    simp [own, present, failure?]

theorem fault?_congr (registered : ∀ pid, d.tasks.contains pid = c.tasks.contains pid)
    (cpus : d.cpus = c.cpus) {placed : List Pid}
    (waits : ∀ pid, pid ∉ placed → (pid ∈ d.queues.waiting ↔ pid ∈ c.queues.waiting))
    (p : Placement) : d.fault? cpu placed p = c.fault? cpu placed p := by
  have taken : (placed.contains p.pid || d.queues.contains p.pid) =
      (placed.contains p.pid || c.queues.contains p.pid) := by
    by_cases before : p.pid ∈ placed
    · simp [before]
    · simp [before, Queues.contains, waits p.pid before]
  unfold fault?
  rw [registered, taken, cpus]

theorem faults_congr (registered : ∀ pid, d.tasks.contains pid = c.tasks.contains pid)
    (cpus : d.cpus = c.cpus) {placed : List Pid}
    (waits : ∀ pid, pid ∉ placed → (pid ∈ d.queues.waiting ↔ pid ∈ c.queues.waiting))
    (placements : List Placement) :
    d.faults cpu placed placements = c.faults cpu placed placements := by
  induction placements generalizing placed with
  | nil => rfl
  | cons p rest ih =>
    have later : d.faults cpu (placed ++ [p.pid]) rest = c.faults cpu (placed ++ [p.pid]) rest :=
      ih fun pid fresh => waits pid fun member => fresh (List.mem_append_left _ member)
    unfold faults
    rw [later, fault?_congr registered cpus waits]

theorem place_answer {placements : List Placement}
    (known : ∀ p ∈ placements, c.queues.has p.queue = true) (placed : List Pid) :
    (c.place cpu placed placements).1 =
      match (c.faults cpu placed placements).head? with
      | some e => .error e
      | none => .ok (placed ++ placements.map (·.pid)) := by
  induction placements generalizing c placed with
  | nil => simp [place, faults]
  | cons p rest ih =>
    have answer := placeOne_answer (known p List.mem_cons_self) cpu placed
    unfold place faults
    rw [← answer]
    cases made : c.placeOne cpu placed p with
    | error e => rfl
    | ok d =>
      have covers := (placeOne_puts made).covers
      obtain ⟨_, _, _, r, pushed, rfl⟩ := placeOne_inv made
      refine (ih (fun q member => covers.has (known q (List.mem_cons_of_mem _ member))) _).trans ?_
      rw [faults_congr (fun pid => Table.contains_modify c.tasks p.pid pid _)
        (Queues.push_cpus pushed) fun pid fresh => ?_]
      · simp [failure?]
      · rw [Queues.mem_waiting_push pushed, or_iff_right]
        exact fun same => fresh (List.mem_append_right _ (List.mem_singleton.mpr same))

end SchedClass

end LoadableSched
