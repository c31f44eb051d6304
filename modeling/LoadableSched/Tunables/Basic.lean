import LoadableSched.Basic
import LoadableSched.Decimal.Printed
import LoadableSched.Failure

/-!
The settings of the shipped policies, what makes them valid, and the fixed-point quantities that a
policy derives from them.
-/

namespace LoadableSched

structure Tunables where
  slice : Nanos
  prioSlice : Nanos
  /-- Tasks that use less than this share of their slice, in percent, count as I/O-bound. -/
  prioThreshold : UInt64
  smoothing : Float
  /-- The usage assumed of a task without a sample, as a percentage of the slice. -/
  initialUsage : Float
  verbose : Bool
  structured : Bool
  interval : UInt64

namespace Tunables

def default : Tunables where
  slice := defaultSlice
  prioSlice := defaultSlice
  prioThreshold := 5
  smoothing := 0.99
  initialUsage := 100.0
  verbose := false
  structured := false
  interval := 100

instance : Inhabited Tunables := ⟨default⟩

inductive Fault where
  | zeroSlice
  | threshold (percent : UInt64)
  | smoothing (x : Float)
  | initialUsage (x : Float)
  | zeroInterval
  | unreadable (key raw : String)

def Fault.message : Fault → String
  | zeroSlice => "slice durations must be positive"
  | threshold percent => "priority usage threshold " ++ toString percent ++ "% exceeds 100%"
  | smoothing x => "weighted average multiplier " ++ Decimal.plain.text x ++ " is outside [0, 1]"
  | initialUsage x => "initial usage " ++ Decimal.plain.text x ++ "% is outside [0, 100]"
  | zeroInterval => "stats interval must be positive"
  | unreadable key raw => key ++ "=" ++ raw ++ " is not a valid value"

def Fault.failure (fault : Fault) : Failure := .configuration fault.message

def validate (t : Tunables) : Except Fault Unit :=
  if t.slice = 0 || t.prioSlice = 0 then .error .zeroSlice
  else if t.prioThreshold > 100 then .error (.threshold t.prioThreshold)
  else if !(0.0 ≤ t.smoothing && t.smoothing ≤ 1.0) then .error (.smoothing t.smoothing)
  else if !(0.0 ≤ t.initialUsage && t.initialUsage ≤ 100.0) then
    .error (.initialUsage t.initialUsage)
  else if t.interval = 0 then .error .zeroInterval
  else .ok ()

def fixedOne : Nat := 1000000

/-- The smoothing weight in fixed point, between zero and `fixedOne`. -/
def weight (t : Tunables) : UInt64 :=
  let scaled := (t.smoothing * 1000000.0).round
  if scaled > 0.0 then min scaled.toUInt64 (UInt64.ofNat fixedOne) else 0

/-- The usage assumed of a task without a sample, in nanoseconds of the normal slice. -/
def initialSample (t : Tunables) : Nanos :=
  let percent :=
    if t.initialUsage < 0.0 then 0.0
    else if t.initialUsage > 100.0 then 100.0
    else t.initialUsage
  (t.slice.toFloat * percent / 100.0).round.toUInt64

end Tunables

end LoadableSched
