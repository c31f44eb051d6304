/-!
Numbers read from text: whole numbers of 64 bits, and decimals with an optional fraction and
exponent, which round to the nearest floating-point number.
-/

namespace LoadableSched.Decimal

def digitValue (c : Char) : Nat := c.toNat - '0'.toNat

def digitsValue (cs : List Char) : Nat := cs.foldl (fun n c => n * 10 + digitValue c) 0

def splitDigits (cs : List Char) : List Char × List Char := cs.span Char.isDigit

def readWord? (text : String) : Option UInt64 :=
  let digits :=
    match text.toList with
    | '+' :: rest => rest
    | cs => cs
  if digits.isEmpty || !digits.all Char.isDigit then none
  else
    let n := digitsValue digits
    if n < UInt64.size then some (UInt64.ofNat n) else none

def nearestFloat (digits : Nat) (exponent : Int) : Float :=
  let point := exponent + (Nat.toDigits 10 digits).length
  if digits = 0 then 0.0
  else if point > 400 then 1.0 / 0.0
  else if point < -400 then 0.0
  else if exponent < 0 then Float.ofScientific digits true exponent.natAbs
  else Float.ofScientific digits false exponent.natAbs

def readExponent? : List Char → Option Int
  | [] => some 0
  | mark :: rest =>
    if mark = 'e' || mark = 'E' then
      let (negative, digits) :=
        match rest with
        | '-' :: ds => (true, ds)
        | '+' :: ds => (false, ds)
        | ds => (false, ds)
      if digits.isEmpty || !digits.all Char.isDigit then none
      else
        let n : Int := digitsValue digits
        some (if negative then -n else n)
    else none

def readMagnitude? (cs : List Char) : Option Float :=
  let (whole, rest) := splitDigits cs
  let (fraction, rest) :=
    match rest with
    | '.' :: after => splitDigits after
    | _ => ([], rest)
  if whole.isEmpty && fraction.isEmpty then none
  else
    (readExponent? rest).map fun exponent =>
      nearestFloat (digitsValue (whole ++ fraction)) (exponent - fraction.length)

/-- A decimal or one of the words for infinity and for no number, in any case, after an optional sign. -/
def readFloat? (text : String) : Option Float :=
  let (negative, cs) :=
    match text.toList with
    | '-' :: rest => (true, rest)
    | '+' :: rest => (false, rest)
    | cs => (false, cs)
  let word := String.ofList (cs.map Char.toLower)
  let magnitude :=
    if word = "inf" || word = "infinity" then some (1.0 / 0.0)
    else if word = "nan" then some (0.0 / 0.0)
    else readMagnitude? cs
  magnitude.map fun x => if negative then -x else x

end LoadableSched.Decimal
