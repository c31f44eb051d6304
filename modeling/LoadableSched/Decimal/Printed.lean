import LoadableSched.Decimal.Shortest

/-!
How decimals are written: by the fewest digits in one of the layouts that a style allows, or to a
fixed number of places.
-/

namespace LoadableSched.Decimal

/-- The decisions of a printer that writes the fewest digits. -/
structure Style where
  positional : Int → Bool
  wholeMark : String
  tie : Tie

def positionalText (digits : String) (point : Int) (wholeMark : String) : String :=
  let count : Int := digits.length
  if point ≤ 0 then
    "0." ++ String.ofList (List.replicate (-point).toNat '0') ++ digits
  else if count ≤ point then
    digits ++ String.ofList (List.replicate (point - count).toNat '0') ++ wholeMark
  else
    let cs := digits.toList
    String.ofList (cs.take point.toNat) ++ "." ++ String.ofList (cs.drop point.toNat)

def exponentText (digits : String) (point : Int) : String :=
  let cs := digits.toList
  let rest := cs.drop 1
  let fraction := if rest.isEmpty then "" else "." ++ String.ofList rest
  let power := point - 1
  let sign := if power < 0 then "-" else "+"
  String.ofList (cs.take 1) ++ fraction ++ "e" ++ sign ++ toString power.natAbs

def Style.magnitude (style : Style) (x : Binary) : String :=
  if x.mantissa = 0 then "0" ++ style.wholeMark
  else
    let d := x.shortest style.tie
    let digits := toString d.digits
    let point := d.exponent + digits.length
    if style.positional point then positionalText digits point style.wholeMark
    else exponentText digits point

def Style.text (style : Style) (x : Float) : String :=
  match Value.ofFloat x with
  | .notANumber => "NaN"
  | .infinite negative => if negative then "-inf" else "inf"
  | .finite negative magnitude => (if negative then "-" else "") ++ style.magnitude magnitude

def roundDiv (num den : Nat) : Nat :=
  let q := num / den
  let r := num % den
  if 2 * r < den then q
  else if den < 2 * r then q + 1
  else if q % 2 = 0 then q else q + 1

def fixedMagnitude (places : Nat) (x : Binary) : String :=
  let n := roundDiv (x.mantissa * Nat.pow 2 x.exponent.toNat * Nat.pow 10 places)
    (Nat.pow 2 (-x.exponent).toNat)
  let digits := toString n
  let padded := String.ofList (List.replicate (places + 1 - digits.length) '0') ++ digits
  positionalText padded (padded.length - places : Int) ""

def fixedText (places : Nat) (x : Float) : String :=
  match Value.ofFloat x with
  | .notANumber => "NaN"
  | .infinite negative => if negative then "-inf" else "inf"
  | .finite negative magnitude => (if negative then "-" else "") ++ fixedMagnitude places magnitude

def plain : Style := ⟨fun _ => true, "", .up⟩

def structured : Style := ⟨fun point => -5 < point && point ≤ 16, ".0", .toEven⟩

end LoadableSched.Decimal
