import LoadableSched.Policy.Basic

/-!
First in, first out: one queue that all processors share, and a processor that is idle gets a waking
task at once.
-/

namespace LoadableSched.Fifo

def queue : QueueId := 0

/-- Creates a queue, and yields the return code of a callback that ends there. -/
def createOr {ω : Type} (id : Int64) (next : Callback ω Int) : Callback ω Int := do
  match ← Callback.create id with
  | .ok _ => next
  | .error e => return e.returnCode

def policy (ω : Type) : Policy ω where
  name := "fifo"
  init := createOr 0 (return 0)
  selectCpu task previous _ := do
    let (cpu, idle) ← Callback.pickCpu previous
    if idle then Callback.place task.pid localQueue defaultSlice
    return cpu
  enqueue task _ := Callback.place task.pid queue defaultSlice
  dispatch _ _ := do
    let _ ← Callback.take queue
  enable task := return { task with vtime := 0 }

end LoadableSched.Fifo
