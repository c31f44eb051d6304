import LoadableSched.Counters.Basic
import LoadableSched.Decimal.Printed
import LoadableSched.Text.Hex

/-!
Reports on a sample of the counters: a line of prose or one line of structured data, and none where
nothing happened.
-/

namespace LoadableSched

namespace Counters

def averageOf (total count : UInt64) : Option UInt64 := if count = 0 then none else some (total / count)

def averageWait (c : Counters) : Option UInt64 := averageOf c.wait c.enqueues

def averagePrioWait (c : Counters) : Option UInt64 := averageOf c.prioWait c.prioEnqueues

def averageNormalWait (c : Counters) : Option UInt64 := averageOf c.normalWait c.normalEnqueues

def usage (c : Counters) : Option Float :=
  if c.sliceGranted = 0 then none else some (c.sliceUsed.toFloat / c.sliceGranted.toFloat)

def isZero (c : Counters) : Bool := c = zero

end Counters

inductive ReportLayout where
  | prose
  | structured
deriving DecidableEq, Repr

namespace Report

def clause (lead : String) (value : Option String) (trail : String) : String :=
  match value with
  | none => ""
  | some v => ", " ++ lead ++ ": " ++ v ++ trail

def prose (scheduler : String) (c : Counters) : String :=
  let waits := fun (average : Option UInt64) => average.map toString
  let direct := if c.directDispatches = 0 then none else some (toString c.directDispatches)
  "[" ++ scheduler ++ "] enqueues: " ++ toString c.enqueues
    ++ clause "average wait" (waits c.averageWait) " ns"
    ++ clause "prio wait" (waits c.averagePrioWait) " ns"
    ++ clause "normal wait" (waits c.averageNormalWait) " ns"
    ++ clause "slice usage" (c.usage.map (Decimal.fixedText 2)) ""
    ++ clause "direct dispatches" direct ""

def quotedChar (c : Char) : String :=
  match c with
  | '"' => "\\\""
  | '\\' => "\\\\"
  | '\n' => "\\n"
  | '\r' => "\\r"
  | '\t' => "\\t"
  | '\x08' => "\\b"
  | '\x0c' => "\\f"
  | c => if c.toNat < 0x20 then "\\u00" ++ Hex.pair c.toNat else c.toString

def quoted (text : String) : String :=
  "\"" ++ String.join (text.toList.map quotedChar) ++ "\""

def field (key : String) (value : Option String) : String := quoted key ++ ":" ++ value.getD "null"

def structured (scheduler : String) (c : Counters) : String :=
  let counts := Counter.all.map fun counter => field counter.name (some (toString (c.get counter)))
  let fields :=
    [field "scheduler" (some (quoted scheduler))] ++ counts ++
    [field "avg_wait_ns" (c.averageWait.map toString),
     field "avg_prio_wait_ns" (c.averagePrioWait.map toString),
     field "avg_normal_wait_ns" (c.averageNormalWait.map toString),
     field "slice_usage" (c.usage.map Decimal.structured.text)]
  "\x7b" ++ String.intercalate "," fields ++ "\x7d"

/-- The line for a sample; nothing is reported where nothing happened. -/
def line? (layout : ReportLayout) (scheduler : String) (c : Counters) : Option String :=
  if c.isZero then none
  else
    match layout with
    | .prose => some (prose scheduler c)
    | .structured => some (structured scheduler c)

def take (layout : ReportLayout) (scheduler : String) (c : Counters) :
    Option (Counters × String) × Counters :=
  let (sample, rest) := c.sample
  ((line? layout scheduler sample).map fun line => (sample, line), rest)

end Report

end LoadableSched
