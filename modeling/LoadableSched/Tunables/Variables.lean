import LoadableSched.Decimal.Read
import LoadableSched.Text.Blank
import LoadableSched.Tunables.Basic

/-!
Settings taken from named variables; a variable that is absent leaves its default in place.
-/

namespace LoadableSched.Tunables

def variableNames : List String :=
  ["SCX_SLICE_NS", "SCX_PRIO_SLICE_NS", "SCX_PRIO_USAGE_PCT", "SCX_WEIGHTED_AVG_MULT",
   "SCX_INITIAL_USAGE_PCT", "SCX_VERBOSE", "SCX_STATS_JSON", "SCX_STATS_INTERVAL_MS"]

def readVariable {α : Type} (read : String → Option α) (lookup : String → Option String)
    (key : String) (fallback : α) : Except Fault α :=
  match lookup key with
  | none => .ok fallback
  | some raw =>
    match read (Text.trim raw) with
    | some value => .ok value
    | none => .error (.unreadable key raw)

def readSwitch (lookup : String → Option String) (key : String) (fallback : Bool) : Bool :=
  match lookup key with
  | none => fallback
  | some raw => raw = "1" || raw = "true"

/-- Reads the variables in a fixed order and validates the outcome; the first fault is reported. -/
def ofVariables (lookup : String → Option String) : Except Fault Tunables := do
  let slice ← readVariable Decimal.readWord? lookup "SCX_SLICE_NS" default.slice
  let prioSlice ← readVariable Decimal.readWord? lookup "SCX_PRIO_SLICE_NS" default.prioSlice
  let prioThreshold ←
    readVariable Decimal.readWord? lookup "SCX_PRIO_USAGE_PCT" default.prioThreshold
  let smoothing ←
    readVariable Decimal.readFloat? lookup "SCX_WEIGHTED_AVG_MULT" default.smoothing
  let initialUsage ←
    readVariable Decimal.readFloat? lookup "SCX_INITIAL_USAGE_PCT" default.initialUsage
  let verbose := readSwitch lookup "SCX_VERBOSE" default.verbose
  let structured := readSwitch lookup "SCX_STATS_JSON" default.structured
  let interval ← readVariable Decimal.readWord? lookup "SCX_STATS_INTERVAL_MS" default.interval
  let t : Tunables :=
    { slice, prioSlice, prioThreshold, smoothing, initialUsage, verbose, structured, interval }
  t.validate
  return t

end LoadableSched.Tunables
