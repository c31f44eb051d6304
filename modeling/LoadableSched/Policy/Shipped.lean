import LoadableSched.Manifest.Basic
import LoadableSched.Policy.IoPriority

/-!
The policies that come with the host, by name: how each is built, and the manifest of the extension
that carries it.
-/

namespace LoadableSched

inductive Shipped where
  | fifo
  | roundRobin
  | ioPriority
  | weightedAverage
deriving DecidableEq, Repr

namespace Shipped

def all : List Shipped := [fifo, roundRobin, ioPriority, weightedAverage]

def name : Shipped → String
  | fifo => "fifo"
  | roundRobin => "round-robin"
  | ioPriority => "io-priority"
  | weightedAverage => "weighted-avg"

def ofName? (text : String) (ignoreCase : Bool) : Option Shipped :=
  let fold := fun (s : String) => if ignoreCase then String.ofList (s.toList.map Char.toLower) else s
  all.find? fun p => fold p.name = fold text

def opsMap : Shipped → String
  | fifo => "fifo_ops"
  | roundRobin => "rr_ops"
  | ioPriority => "io_prio_ops"
  | weightedAverage => "prio_avg_ops"

def schedulerName : Shipped → String
  | fifo => "fifo_scheduler"
  | roundRobin => "round_robin_scheduler"
  | ioPriority => "io_priority_scheduler"
  | weightedAverage => "prio_weighted_avg_scheduler"

def usesTaskMaps : Shipped → Bool
  | fifo => false
  | _ => true

def enqueueTimeMap : String := "enqueue_time"

def sliceUsageMap : String := "slice_usage"

def taskMap (name : String) : MapSpec := ⟨name, .lruHash, taskMapLayout⟩

def taskMaps : Shipped → List MapSpec
  | fifo => []
  | roundRobin => [taskMap enqueueTimeMap]
  | ioPriority => [taskMap enqueueTimeMap, taskMap sliceUsageMap]
  | weightedAverage => [taskMap enqueueTimeMap, taskMap sliceUsageMap]

/-- The extension of the policy: its map of operations, and an entry point for each decision. -/
def manifest (p : Shipped) : Manifest where
  name := p.name
  license := "GPL"
  entryPoints := Decision.all.map fun d =>
    ⟨p.opsMap ++ "_" ++ d.name, "struct_ops/" ++ d.name, false⟩
  maps := MapSpec.structOps p.opsMap :: p.taskMaps
  properties := Table.ofList [("sched_name", p.schedulerName)]

def build (p : Shipped) (t : Tunables) (maps : TaskMaps) (m : Memory) : Policy Memory × Memory :=
  match p with
  | fifo => (Fifo.policy Memory, m)
  | roundRobin =>
    let (counters, m) := m.newCounters
    (RoundRobin.policy ⟨t.slice, maps.enqueueTime, counters⟩, m)
  | ioPriority =>
    let (counters, m) := m.newCounters
    ((IoPriority.ofTunables t .lastSample maps counters).policy, m)
  | weightedAverage =>
    let (counters, m) := m.newCounters
    ((IoPriority.ofTunables t (.average t.weight t.initialSample) maps counters).policy, m)

end Shipped

end LoadableSched
