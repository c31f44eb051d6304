import LoadableSched.Decimal.Read
import LoadableSched.Policy.Shipped

/-!
The options of the command line: which policy to run, on how large a machine, and settings that count
before the variables.
-/

namespace LoadableSched

structure Options where
  policy : Shipped := .fifo
  verbose : Bool := false
  slice : Option Nanos := none
  prioSlice : Option Nanos := none
  prioThreshold : Option UInt64 := none
  smoothing : Option Float := none
  initialUsage : Option Float := none
  cpus : Nat := 4
  tasks : Nat := 8
  duration : Option Nat := none

namespace Options

inductive Fault where
  | unknown (argument : String)
  | missingValue (option : String)
  | invalidValue (option value : String)
deriving DecidableEq, Repr

def Fault.message : Fault → String
  | unknown argument => "unexpected argument '" ++ argument ++ "' found"
  | missingValue option => "a value is required for '" ++ option ++ "' but none was supplied"
  | invalidValue option value => "invalid value '" ++ value ++ "' for '" ++ option ++ "'"

def names : List String :=
  ["--policy", "--slice-ns", "--prio-slice-ns", "--prio-usage-pct", "--weighted-avg-mult",
   "--initial-usage-pct", "--cpus", "--tasks", "--duration-ms"]

def readCount? (text : String) : Option Nat :=
  (Decimal.readWord? text).bind fun n => if n.toNat < UInt32.size then some n.toNat else none

def set? (o : Options) (option value : String) : Option Options :=
  match option with
  | "--policy" => (Shipped.ofName? value false).map fun x => { o with policy := x }
  | "--slice-ns" => (Decimal.readWord? value).map fun x => { o with slice := some x }
  | "--prio-slice-ns" => (Decimal.readWord? value).map fun x => { o with prioSlice := some x }
  | "--prio-usage-pct" => (Decimal.readWord? value).map fun x => { o with prioThreshold := some x }
  | "--weighted-avg-mult" => (Decimal.readFloat? value).map fun x => { o with smoothing := some x }
  | "--initial-usage-pct" => (Decimal.readFloat? value).map fun x => { o with initialUsage := some x }
  | "--cpus" => (readCount? value).map fun n => { o with cpus := n }
  | "--tasks" => (readCount? value).map fun n => { o with tasks := n }
  | "--duration-ms" => (Decimal.readWord? value).map fun n => { o with duration := some n.toNat }
  | _ => none

def set (o : Options) (option value : String) : Except Fault Options :=
  match o.set? option value with
  | some o => .ok o
  | none => .error (.invalidValue option value)

def joined? (argument : String) : Option (String × String) :=
  match argument.splitOn "=" with
  | option :: part :: parts => some (option, String.intercalate "=" (part :: parts))
  | _ => none

/-- Reads arguments from left to right; of an option given twice the later value counts. -/
def read (o : Options) : List String → Except Fault Options
  | [] => .ok o
  | argument :: rest =>
    if argument = "-v" || argument = "--verbose" then read { o with verbose := true } rest
    else if names.contains argument then
      match rest with
      | [] => .error (.missingValue argument)
      | value :: rest =>
        match o.set argument value with
        | .error fault => .error fault
        | .ok o => read o rest
    else
      match joined? argument with
      | none => .error (.unknown argument)
      | some (option, value) =>
        if names.contains option then
          match o.set option value with
          | .error fault => .error fault
          | .ok o => read o rest
        else .error (.unknown argument)

def applyTo (o : Options) (t : Tunables) : Except Tunables.Fault Tunables :=
  let t : Tunables := { t with
    verbose := t.verbose || o.verbose
    slice := o.slice.getD t.slice
    prioSlice := o.prioSlice.getD t.prioSlice
    prioThreshold := o.prioThreshold.getD t.prioThreshold
    smoothing := o.smoothing.getD t.smoothing
    initialUsage := o.initialUsage.getD t.initialUsage }
  t.validate.map fun _ => t

def help : String :=
  "Usage: loadable-sched [OPTIONS]\n\n"
    ++ "  --policy <POLICY>            "
    ++ String.intercalate ", " (Shipped.all.map Shipped.name) ++ "\n"
    ++ "  -v, --verbose                print statistics every interval\n"
    ++ "  --slice-ns <N>               time slice in nanoseconds\n"
    ++ "  --prio-slice-ns <N>          time slice of the priority queue in nanoseconds\n"
    ++ "  --prio-usage-pct <N>         slice usage under which a task counts as I/O-bound\n"
    ++ "  --weighted-avg-mult <X>      smoothing constant of the moving average, in [0, 1]\n"
    ++ "  --initial-usage-pct <X>      usage assumed before the first sample of a task\n"
    ++ "  --cpus <N>                   number of simulated processors\n"
    ++ "  --tasks <N>                  number of synthetic tasks\n"
    ++ "  --duration-ms <N>            stop after so many milliseconds"

end Options

end LoadableSched
