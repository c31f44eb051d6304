import LoadableSched.Options
import LoadableSched.Simulation
import LoadableSched.Tunables.Variables

/-!
The command line: runs a shipped policy under a synthetic workload and prints its reports.
-/

namespace LoadableSched

def Simulation.advance (s : Simulation) (ticks : Nat) : IO Simulation := do
  let (line, s) := s.report ticks
  match line with
  | some line => IO.println line
  | none => pure ()
  let (error, s) := s.tick
  match error with
  | some e => IO.eprintln ("workload stopped: " ++ e.message)
  | none => pure ()
  IO.sleep 1
  return s

def Simulation.runTicks (s : Simulation) (made : Nat) : Nat → IO Simulation
  | 0 => return s
  | left + 1 => do (← s.advance made).runTicks (made + 1) left

partial def Simulation.runOn (s : Simulation) (made : Nat) : IO Simulation := do
  (← s.advance made).runOn (made + 1)

def Failure.print (failure : Failure) : IO UInt32 := do
  IO.eprintln (failure.documentCode ++ ": " ++ failure.message)
  match failure.help? with
  | some help => IO.eprintln ("help: " ++ help)
  | none => pure ()
  return 1

def Options.run (o : Options) (lookup : String → Option String) : IO UInt32 := do
  match (Tunables.ofVariables lookup).bind o.applyTo with
  | .error fault => fault.failure.print
  | .ok t =>
    match Simulation.start o.cpus o.tasks o.policy t with
    | .error failure => failure.print
    | .ok s =>
      let s ←
        match o.duration with
        | some ticks => s.runTicks 0 ticks
        | none => s.runOn 0
      match s.finish with
      | (.error failure, _) => failure.print
      | (.ok (), s) =>
        match s.kernel.sched.exit with
        | some e => IO.eprintln ("scheduler " ++ e.policy ++ " was aborted: " ++ e.reason.message)
        | none => pure ()
        return 0

end LoadableSched

open LoadableSched in
def main (args : List String) : IO UInt32 := do
  if args.contains "-h" || args.contains "--help" then
    IO.println Options.help
    return 0
  match Options.read {} args with
  | .error fault =>
    IO.eprintln ("error: " ++ fault.message ++ "\n\n" ++ Options.help)
    return 2
  | .ok o =>
    let values ← Tunables.variableNames.mapM fun name => return (name, ← IO.getEnv name)
    o.run fun name => (values.lookup name).join
