import LoadableSched.Json.Basic
import LoadableSched.Decimal.Read

/-!
What a written number is worth: a 64-bit word, or a floating-point number. The latter keeps as many
leading digits as fit into a word and then scales by powers of ten in floating-point arithmetic, so
its last bit may differ from that of the nearest number.
-/

namespace LoadableSched.Json

open LoadableSched.Decimal (digitValue digitsValue)

def Numeral.word? (n : Numeral) : Option UInt64 :=
  if n.negative || !n.fraction.isEmpty || n.exponent.isSome then none
  else
    let value := digitsValue n.whole
    if value < UInt64.size then some (UInt64.ofNat value) else none

/-- Takes digits into the word for as long as it stays below `2 ^ 64`; the rest are left over. -/
def takeDigits (word : Nat) : List Char → Nat × List Char
  | [] => (word, [])
  | c :: rest =>
    let next := word * 10 + digitValue c
    if next < UInt64.size then takeDigits next rest else (word, c :: rest)

def powerOfTen (n : Nat) : Float := Float.ofScientific 1 false n

def scaleFloat (f : Float) (exponent : Int) : Option Float :=
  if exponent.natAbs ≤ 308 then
    if 0 ≤ exponent then
      let scaled := f * powerOfTen exponent.natAbs
      if scaled.isInf then none else some scaled
    else some (f / powerOfTen exponent.natAbs)
  else if f == 0.0 then some f
  else if 0 ≤ exponent then none
  else scaleFloat (f / powerOfTen 308) (exponent + 308)
termination_by exponent.natAbs
decreasing_by omega

def Numeral.float? (n : Numeral) : Option Float :=
  let (word, left) := takeDigits 0 n.whole
  let (word, leftFraction) := takeDigits word n.fraction
  let taken := n.fraction.length - leftFraction.length
  let written : Int :=
    match n.exponent with
    | none => 0
    | some (negative, digits) => if negative then -(digitsValue digits : Int) else digitsValue digits
  let exponent : Int := (left.length : Int) - taken + written
  (scaleFloat (UInt64.ofNat word).toFloat exponent).map fun f => if n.negative then -f else f

end LoadableSched.Json
