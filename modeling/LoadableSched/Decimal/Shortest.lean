import LoadableSched.Decimal.Binary

/-!
The fewest decimal digits that identify a floating-point number: of the grids with one, two, three
and more digits, the first that has a point among the reals that round to the number.
-/

namespace LoadableSched.Decimal

inductive Tie where
  | up
  | toEven
deriving DecidableEq, Repr

def Binary.floorAt (x : Binary) (k : Int) : Nat :=
  x.mantissa * Nat.pow 2 x.exponent.toNat * Nat.pow 10 (-k).toNat /
    (Nat.pow 2 (-x.exponent).toNat * Nat.pow 10 k.toNat)

def Binary.scale (x : Binary) : Int :=
  (Nat.toDigits 10 (x.floorAt (-400))).length - 400

def Binary.nearest (x : Binary) (tie : Tie) (k : Int) : Scaled :=
  let below := x.floorAt k
  match compareScaled (2 * below + 1) k x.mantissa (x.exponent + 1) with
  | .lt => ⟨below + 1, k⟩
  | .gt => ⟨below, k⟩
  | .eq =>
    match tie with
    | .up => ⟨below + 1, k⟩
    | .toEven => if below % 2 = 0 then ⟨below, k⟩ else ⟨below + 1, k⟩

/-- The point of the grid of `10 ^ k` to write for the value, if one reads back. -/
def Binary.onGrid? (x : Binary) (tie : Tie) (k : Int) : Option Scaled :=
  let below : Scaled := ⟨x.floorAt k, k⟩
  let above : Scaled := ⟨x.floorAt k + 1, k⟩
  match x.readsBack below, x.readsBack above with
  | true, true => some (x.nearest tie k)
  | true, false => some below
  | false, true => some above
  | false, false => none

def Binary.exact (x : Binary) : Scaled :=
  ⟨x.mantissa * Nat.pow 2 x.exponent.toNat * Nat.pow 5 (-x.exponent).toNat, min x.exponent 0⟩

def stripZeros : Nat → Scaled → Scaled
  | 0, d => d
  | fuel + 1, d =>
    if d.digits % 10 = 0 then stripZeros fuel ⟨d.digits / 10, d.exponent + 1⟩ else d

/-- The shortest decimal that reads back as a non-zero value. -/
def Binary.shortest (x : Binary) (tie : Tie) : Scaled :=
  let scale := x.scale
  let found := (List.range 17).findSome? fun (n : Nat) => x.onGrid? tie (scale - (n + 1))
  stripZeros 20 (found.getD x.exact)

end LoadableSched.Decimal
