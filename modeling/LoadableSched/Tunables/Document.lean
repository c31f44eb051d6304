import LoadableSched.Json.Number
import LoadableSched.Json.Read
import LoadableSched.Tunables.Basic

/-!
Settings read from a JSON document: an object with any of the fields, or an array that starts with
the values of the fields in their order.
-/

namespace LoadableSched.Tunables

open LoadableSched.Json (Value Piece)

inductive Field where
  | slice
  | prioSlice
  | prioThreshold
  | smoothing
  | initialUsage
  | verbose
  | structured
  | interval
deriving DecidableEq, Repr

def Field.all : List Field :=
  [.slice, .prioSlice, .prioThreshold, .smoothing, .initialUsage, .verbose, .structured, .interval]

def Field.key : Field → String
  | slice => "slice_ns"
  | prioSlice => "prio_slice_ns"
  | prioThreshold => "prio_slice_usage_pct"
  | smoothing => "weighted_avg_mult"
  | initialUsage => "initial_usage_pct"
  | verbose => "verbose"
  | structured => "stats_json"
  | interval => "stats_interval"

def word? : Value → Option UInt64
  | .number n => n.word?
  | _ => none

def float? : Value → Option Float
  | .number n => n.float?
  | _ => none

def bool? : Value → Option Bool
  | .bool b => some b
  | _ => none

def set? (t : Tunables) (field : Field) (value : Value) : Option Tunables :=
  match field with
  | .slice => (word? value).map fun x => { t with slice := x }
  | .prioSlice => (word? value).map fun x => { t with prioSlice := x }
  | .prioThreshold => (word? value).map fun x => { t with prioThreshold := x }
  | .smoothing => (float? value).map fun x => { t with smoothing := x }
  | .initialUsage => (float? value).map fun x => { t with initialUsage := x }
  | .verbose => (bool? value).map fun x => { t with verbose := x }
  | .structured => (bool? value).map fun x => { t with structured := x }
  | .interval => (word? value).map fun x => { t with interval := x }

def ofMembers (t : Tunables) (seen : List Field) : List (List Piece × Value) → Option Tunables
  | [] => some t
  | (pieces, value) :: rest => do
    let key ← Json.text? pieces
    match Field.all.find? (·.key = String.ofList key) with
    | none => ofMembers t seen rest
    | some field =>
      if seen.contains field then none
      else
        let t ← t.set? field value
        ofMembers t (field :: seen) rest

/-- Writes the items of an array in the order of the fields. -/
def ofItems (t : Tunables) : List Field → List Value → Option Tunables
  | _, [] => some t
  | [], _ :: _ => none
  | field :: fields, value :: values => do ofItems (← t.set? field value) fields values

/-- The settings of a document; nothing if it is not JSON or has a value of the wrong kind. -/
def ofDocument? (text : String) : Option Tunables := do
  match ← Json.read? text with
  | .object members => ofMembers default [] members
  | .array items => ofItems default Field.all items
  | _ => none

end LoadableSched.Tunables
