import LoadableSched.Proofs.Policy.Bookkeeping
import LoadableSched.Proofs.Recency

/-!
What the policies that time their tasks keep in memory: when each task was queued, how many were started, and
how long they had waited.
-/

namespace LoadableSched

def Counters.Balanced (c : Counters) : Prop :=
  c.prioEnqueues + c.normalEnqueues = c.enqueues ∧ c.prioWait + c.normalWait = c.wait
deriving Decidable

theorem Counters.sample_eq (c : Counters) : c.sample = (c, zero) := by
  simp only [sample, Counter.all, takeEach, swap, get, set, zero]

structure Counters.Adds (lanes : Bool) (c : Counters) (starts waited : UInt64) (d : Counters) : Prop where
  enqueues : d.enqueues = c.enqueues + starts
  wait : d.wait = c.wait + waited
  balanced : lanes = true → c.Balanced → d.Balanced

namespace Counters.Adds

variable {lanes : Bool} {c d e : Counters}

theorem same (enqueues : d.enqueues = c.enqueues) (wait : d.wait = c.wait)
    (balanced : c.Balanced → d.Balanced) : c.Adds lanes 0 0 d :=
  ⟨enqueues.trans (UInt64.add_zero _).symm, wait.trans (UInt64.add_zero _).symm, fun _ => balanced⟩

theorem trans (first : c.Adds lanes 0 0 d) (later : d.Adds lanes 0 0 e) : c.Adds lanes 0 0 e where
  enqueues := by rw [later.enqueues, first.enqueues, UInt64.add_zero, UInt64.add_zero]
  wait := by rw [later.wait, first.wait, UInt64.add_zero, UInt64.add_zero]
  balanced told := later.balanced told ∘ first.balanced told

theorem start (c : Counters) (waited : Nanos) : c.Adds false 1 waited (c.addAll (recordWait waited)) :=
  ⟨rfl, rfl, nofun⟩

theorem lane (c : Counters) (bound : Bool) (waited : Nanos) :
    c.Adds true 1 waited ((c.addAll (if bound then recordPrioWait waited else recordNormalWait waited)).addAll
      (recordWait waited)) := by
  cases bound with
  | false =>
    refine ⟨rfl, rfl, fun _ ⟨starts, waits⟩ => ⟨?_, ?_⟩⟩
    · exact (UInt64.add_assoc _ _ _).symm.trans (congrArg (· + 1) starts)
    · exact (UInt64.add_assoc _ _ _).symm.trans (congrArg (· + waited) waits)
  | true =>
    have swap : ∀ a b n : UInt64, a + n + b = a + b + n := fun a b n => by
      rw [UInt64.add_assoc, UInt64.add_comm n, ← UInt64.add_assoc]
    refine ⟨rfl, rfl, fun _ ⟨starts, waits⟩ => ⟨?_, ?_⟩⟩
    · exact (swap _ _ _).trans (congrArg (· + 1) starts)
    · exact (swap _ _ _).trans (congrArg (· + waited) waits)

end Counters.Adds

/-- The store of the times at which tasks were queued, the tasks that may be entered there, the counters, and
whether these tell the two queues apart. -/
structure Ledger where
  map : StoreId
  counters : Nat
  pids : List Pid
  lanes : Bool

namespace Ledger

variable {l : Ledger} {m m' m'' : Memory} {since : Pid → Option Nanos} {c : Counters}

structure Holds (l : Ledger) (m : Memory) (since : Pid → Option Nanos) (c : Counters) : Prop where
  stamps : ∃ s, m.stores[l.map]? = some s ∧ s.layout = taskMapLayout ∧ s.Roomy (l.pids.map Word.encode) ∧
    ∀ pid, (s.peek? (Word.encode pid)).bind Word.decode? = since pid
  counts : m.counters[l.counters]? = some c

structure Spares (l : Ledger) (m m' : Memory) : Prop where
  stamps : ∀ s, m.stores[l.map]? = some s → ∃ s', m'.stores[l.map]? = some s' ∧ s.Alike s'
  counts : ∀ c, m.counters[l.counters]? = some c → m'.counters[l.counters]? = some c

theorem Spares.refl (l : Ledger) (m : Memory) : l.Spares m m :=
  ⟨fun s there => ⟨s, there, .refl s⟩, fun _ => id⟩

theorem setStore_spares {id : StoreId} (other : id ≠ l.map) (m : Memory) (s : Store) :
    l.Spares m (m.setStore id s) :=
  ⟨fun s there => ⟨s, by rwa [Memory.setStore, List.getElem?_set_ne other], .refl s⟩, fun _ there => there⟩

theorem read_spares {id : StoreId} (other : id ≠ l.map) (m : Memory) (pid : Pid) :
    l.Spares m (m.read id pid).2 :=
  setStore_spares other m _

theorem write_spares {id : StoreId} (other : id ≠ l.map) (m : Memory) (pid : Pid) (value : UInt64) :
    l.Spares m (m.write id pid value) := by
  unfold Memory.write
  split
  · exact .refl l m
  · exact setStore_spares other m _

namespace Holds

theorem spared (holds : l.Holds m since c) (spares : l.Spares m m') : l.Holds m' since c := by
  obtain ⟨s, there, layout, roomy, times⟩ := holds.stamps
  obtain ⟨s', still, alike⟩ := spares.stamps s there
  refine ⟨⟨s', still, alike.layout.trans layout, roomy.alike alike, fun pid => ?_⟩,
    spares.counts c holds.counts⟩
  rw [roomy.peek_alike alike]
  exact times pid

theorem store_eq {s : Store} (there : m.stores[l.map]? = some s) : m.store l.map = s := by
  rw [Memory.store, List.getD_eq_getElem?_getD, there, Option.getD_some]

theorem setStore_there {s s' : Store} (there : m.stores[l.map]? = some s) :
    (m.setStore l.map s').stores[l.map]? = some s' := by
  obtain ⟨inside, _⟩ := List.getElem?_eq_some_iff.mp there
  exact List.getElem?_set_self inside

theorem read (holds : l.Holds m since c) (pid : Pid) :
    (m.read l.map pid).1 = since pid ∧ l.Holds (m.read l.map pid).2 since c := by
  obtain ⟨s, there, _, roomy, times⟩ := holds.stamps
  have found : (m.read l.map pid).1 = since pid := by
    rw [Memory.read, store_eq there, Store.getTyped]
    dsimp only
    rw [Store.get_value]
    exact times pid
  have left : (m.read l.map pid).2 = m.setStore l.map (s.get (Word.encode pid)).2 := by
    rw [Memory.read, store_eq there]
    rfl
  refine ⟨found, holds.spared ⟨fun t same => ?_, fun _ => id⟩⟩
  cases there.symm.trans same
  exact ⟨_, left ▸ setStore_there there, roomy.get_alike _⟩

theorem write (holds : l.Holds m since c) {pid : Pid} (listed : pid ∈ l.pids) (now : Nanos) :
    l.Holds (m.write l.map pid now) (Function.update since pid (some now)) c := by
  obtain ⟨s, there, layout, roomy, times⟩ := holds.stamps
  have accepts : s.layout.accepts (Word.encode pid) (Word.encode now) = true := by
    have key : (Word.encode pid).length = 4 := Bytes.length_ofNat 4 _
    have value : (Word.encode now).length = 8 := Bytes.length_ofNat 8 _
    rw [layout, Layout.accepts, key, value]
    rfl
  obtain ⟨s', put, same, still, peeks⟩ := roomy.put accepts (List.mem_map_of_mem listed)
  have left : m.write l.map pid now = m.setStore l.map s' := by
    rw [Memory.write, store_eq there, Store.putTyped, put]
  rw [left]
  refine ⟨⟨s', setStore_there there, same.trans layout, still, fun other => ?_⟩, holds.counts⟩
  rw [peeks]
  by_cases here : other = pid
  · rw [here, if_pos rfl, Function.update_self]
    exact Word.decode_encode now
  · -- No two tasks share a key.
    rw [if_neg fun same => here (Word.encode_inj same), Function.update_of_ne here]
    exact times other

theorem countersAt_eq (holds : l.Holds m since c) : m.countersAt l.counters = c := by
  rw [Memory.countersAt, List.getD_eq_getElem?_getD, holds.counts, Option.getD_some]

theorem setCounters (holds : l.Holds m since c) (d : Counters) :
    l.Holds (m.setCounters l.counters d) since d := by
  obtain ⟨inside, _⟩ := List.getElem?_eq_some_iff.mp holds.counts
  exact ⟨holds.stamps, List.getElem?_set_self inside⟩

theorem count (holds : l.Holds m since c) (amounts : List (Counter × UInt64)) :
    l.Holds (m.count l.counters amounts) since (c.addAll amounts) := by
  rw [Memory.count, holds.countersAt_eq]
  exact holds.setCounters _

theorem sample (holds : l.Holds m since c) :
    (m.sample l.counters).1 = c ∧ l.Holds (m.sample l.counters).2 since Counters.zero := by
  rw [Memory.sample, holds.countersAt_eq, Counters.sample_eq]
  exact ⟨rfl, holds.setCounters _⟩

end Holds

end Ledger

/-- What a policy notes comes to this for the times and the counts: a task that gets ready is entered with the
time, and one that starts is counted with the time since it was entered. -/
structure Bookkeeping.Times (b : Bookkeeping Memory) (l : Ledger) : Prop where
  ready : ∀ {m m' : Memory} {since : Pid → Option Nanos} {c : Counters} {p : Placement} {now : Nanos},
    l.Holds m since c → p.pid ∈ l.pids → b.ready p now m m' →
      ∃ d, l.Holds m' (Function.update since p.pid (some now)) d ∧ c.Adds l.lanes 0 0 d
  start : ∀ {m m' : Memory} {since : Pid → Option Nanos} {c : Counters} {pid : Pid} {now queued : Nanos},
    l.Holds m since c → since pid = some queued → b.start pid now m m' →
      ∃ d, l.Holds m' since d ∧ c.Adds l.lanes 1 (subSat now queued) d
  halt : ∀ {m m' : Memory} {since : Pid → Option Nanos} {c : Counters} {task : Task},
    l.Holds m since c → b.halt task m m' → ∃ d, l.Holds m' since d ∧ c.Adds l.lanes 0 0 d

theorem RoundRobin.times (r : RoundRobin) (pids : List Pid) :
    r.bookkeeping.Times ⟨r.enqueueTime, r.counters, pids, false⟩ where
  ready {m m' since c p now} holds listed ready := by
    have stamped := holds.write listed now
    rcases ready with ⟨_, rfl⟩ | ⟨_, rfl⟩
    · exact ⟨_, stamped.count _, .same rfl rfl id⟩
    · exact ⟨c, stamped, .same rfl rfl id⟩
  start {m m' since c pid now queued} holds waited start := by
    obtain ⟨found, left⟩ := holds.read pid
    rw [bookkeeping] at start
    dsimp only at start found left
    generalize m.read r.enqueueTime pid = looked at start found left
    obtain ⟨value, m⟩ := looked
    obtain rfl : value = some queued := found.trans waited
    subst start
    exact ⟨_, left.count _, .start c _⟩
  halt {m m' since c task} holds halt := by
    subst halt
    exact ⟨_, holds.count _, .same rfl rfl id⟩

namespace IoPriority

variable {p : IoPriority} {pids : List Pid}

theorem isIoBound_spares (apart : p.maps.enqueueTime ≠ p.maps.sliceUsage) (pid : Pid) (m : Memory) :
    (Ledger.mk p.maps.enqueueTime p.counters pids true).Spares m (p.isIoBound pid m).2 :=
  Ledger.read_spares apart.symm m pid

theorem times (p : IoPriority) (apart : p.maps.enqueueTime ≠ p.maps.sliceUsage) (pids : List Pid) :
    p.bookkeeping.Times ⟨p.maps.enqueueTime, p.counters, pids, true⟩ where
  ready {m m' since c placed now} holds listed ready := by
    rcases ready with ⟨_, rfl⟩ | ⟨_, rfl⟩
    · exact ⟨_, (holds.write listed now).count _, .same rfl rfl id⟩
    · exact ⟨c, (holds.spared (isIoBound_spares apart placed.pid m)).write listed now, .same rfl rfl id⟩
  start {m m' since c pid now queued} holds waited start := by
    obtain ⟨found, left⟩ := holds.read pid
    rw [bookkeeping] at start
    dsimp only at start found left
    generalize m.read p.maps.enqueueTime pid = looked at start found left
    obtain ⟨value, m⟩ := looked
    obtain rfl : value = some queued := found.trans waited
    subst start
    -- The usage is looked up in the other store.
    have counted := left.spared (isIoBound_spares apart pid m)
    exact ⟨_, (counted.count _).count _, .lane c (p.isIoBound pid m).1 _⟩
  halt {m m' since c task} holds halt := by
    subst halt
    have stored : ∀ m value, (Ledger.mk p.maps.enqueueTime p.counters pids true).Holds m since c →
        ∃ d, (Ledger.mk p.maps.enqueueTime p.counters pids true).Holds
          ((m.write p.maps.sliceUsage task.pid value).count p.counters
            (Counters.recordSlice (Usage.used p.slice task.slice) p.slice)) since d ∧ c.Adds true 0 0 d :=
      fun m value holds => ⟨_, (holds.spared (Ledger.write_spares apart.symm m _ _)).count _, .same rfl rfl id⟩
    unfold noted
    cases p.model with
    | lastSample => exact stored m _ holds
    | average weight initial =>
      exact stored _ _ (holds.spared (Ledger.read_spares apart.symm m task.pid))

end IoPriority

end LoadableSched
