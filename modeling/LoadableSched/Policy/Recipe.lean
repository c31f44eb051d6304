import LoadableSched.Policy.Script
import LoadableSched.Policy.Shipped

/-!
Ways to ask for a policy: one that is shipped, one of its schedulers with settings given directly, or
a script.
-/

namespace LoadableSched

inductive Recipe where
  | shipped (policy : Shipped) (t : Tunables)
  | roundRobin (slice : Nanos)
  | ioPriority (t : Tunables) (model : UsageModel)
  | script (script : Script)

def Recipe.build (r : Recipe) (maps : TaskMaps) (m : Memory) : Policy Memory × Memory :=
  match r with
  | .shipped policy t => policy.build t maps m
  | .roundRobin slice =>
    let (counters, m) := m.newCounters
    (RoundRobin.policy ⟨slice, maps.enqueueTime, counters⟩, m)
  | .ioPriority t model =>
    let (counters, m) := m.newCounters
    ((IoPriority.ofTunables t model maps counters).policy, m)
  | .script s =>
    let (id, m) := m.newScript
    (s.policy id, m)

end LoadableSched
