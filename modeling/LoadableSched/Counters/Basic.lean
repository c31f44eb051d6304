import LoadableSched.Basic

/-!
The counters that a policy keeps. Each is read, added to and exchanged on its own; what a callback
records is a sequence of such single steps, and so is taking a sample.
-/

namespace LoadableSched

inductive Counter where
  | enqueues
  | wait
  | prioEnqueues
  | prioWait
  | normalEnqueues
  | normalWait
  | slices
  | sliceUsed
  | sliceGranted
  | directDispatches
deriving DecidableEq, Repr

namespace Counter

def all : List Counter :=
  [.enqueues, .wait, .prioEnqueues, .prioWait, .normalEnqueues, .normalWait, .slices, .sliceUsed,
   .sliceGranted, .directDispatches]

def name : Counter → String
  | enqueues => "enqueues"
  | wait => "wait_ns"
  | prioEnqueues => "prio_enqueues"
  | prioWait => "prio_wait_ns"
  | normalEnqueues => "normal_enqueues"
  | normalWait => "normal_wait_ns"
  | slices => "slices"
  | sliceUsed => "slice_used_ns"
  | sliceGranted => "slice_granted_ns"
  | directDispatches => "direct_dispatches"

end Counter

structure Counters where
  enqueues : UInt64 := 0
  wait : UInt64 := 0
  prioEnqueues : UInt64 := 0
  prioWait : UInt64 := 0
  normalEnqueues : UInt64 := 0
  normalWait : UInt64 := 0
  slices : UInt64 := 0
  sliceUsed : UInt64 := 0
  sliceGranted : UInt64 := 0
  directDispatches : UInt64 := 0
deriving DecidableEq, Repr

namespace Counters

def zero : Counters := {}

instance : Inhabited Counters := ⟨zero⟩

def get (c : Counters) : Counter → UInt64
  | .enqueues => c.enqueues
  | .wait => c.wait
  | .prioEnqueues => c.prioEnqueues
  | .prioWait => c.prioWait
  | .normalEnqueues => c.normalEnqueues
  | .normalWait => c.normalWait
  | .slices => c.slices
  | .sliceUsed => c.sliceUsed
  | .sliceGranted => c.sliceGranted
  | .directDispatches => c.directDispatches

def set (c : Counters) (which : Counter) (value : UInt64) : Counters :=
  match which with
  | .enqueues => { c with enqueues := value }
  | .wait => { c with wait := value }
  | .prioEnqueues => { c with prioEnqueues := value }
  | .prioWait => { c with prioWait := value }
  | .normalEnqueues => { c with normalEnqueues := value }
  | .normalWait => { c with normalWait := value }
  | .slices => { c with slices := value }
  | .sliceUsed => { c with sliceUsed := value }
  | .sliceGranted => { c with sliceGranted := value }
  | .directDispatches => { c with directDispatches := value }

def ofFunction (f : Counter → UInt64) : Counters where
  enqueues := f .enqueues
  wait := f .wait
  prioEnqueues := f .prioEnqueues
  prioWait := f .prioWait
  normalEnqueues := f .normalEnqueues
  normalWait := f .normalWait
  slices := f .slices
  sliceUsed := f .sliceUsed
  sliceGranted := f .sliceGranted
  directDispatches := f .directDispatches

def ofList (values : List UInt64) : Counters :=
  (Counter.all.zip values).foldl (fun c (which, value) => c.set which value) zero

def toList (c : Counters) : List UInt64 := Counter.all.map c.get

def add (c : Counters) (counter : Counter) (amount : UInt64) : Counters :=
  c.set counter (c.get counter + amount)

def swap (c : Counters) (counter : Counter) : UInt64 × Counters :=
  (c.get counter, c.set counter 0)

def addAll (c : Counters) (amounts : List (Counter × UInt64)) : Counters :=
  amounts.foldl (fun c (counter, amount) => c.add counter amount) c

def recordWait (wait : Nanos) : List (Counter × UInt64) := [(.enqueues, 1), (.wait, wait)]

def recordPrioWait (wait : Nanos) : List (Counter × UInt64) := [(.prioEnqueues, 1), (.prioWait, wait)]

def recordNormalWait (wait : Nanos) : List (Counter × UInt64) :=
  [(.normalEnqueues, 1), (.normalWait, wait)]

def recordSlice (used granted : Nanos) : List (Counter × UInt64) :=
  [(.slices, 1), (.sliceUsed, used), (.sliceGranted, granted)]

def recordDirectDispatch : List (Counter × UInt64) := [(.directDispatches, 1)]

def takeEach (taken c : Counters) : List Counter → Counters × Counters
  | [] => (taken, c)
  | counter :: rest =>
    let (value, c) := c.swap counter
    takeEach (taken.set counter value) c rest

def sample (c : Counters) : Counters × Counters := takeEach zero c Counter.all

end Counters

end LoadableSched
