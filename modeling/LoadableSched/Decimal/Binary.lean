/-!
The exact value of a floating-point number, as an integer multiple of a power of two.
-/

namespace LoadableSched.Decimal

structure Binary where
  mantissa : Nat
  exponent : Int
  /-- The neighbour below is half as far away as the one above. -/
  narrowBelow : Bool
deriving DecidableEq, Repr

inductive Value where
  | notANumber
  | infinite (negative : Bool)
  | finite (negative : Bool) (magnitude : Binary)
deriving DecidableEq, Repr

def Value.ofBits (bits : Nat) : Value :=
  let hidden := Nat.pow 2 52
  let negative := bits / Nat.pow 2 63 % 2 == 1
  let exponent : Nat := bits / hidden % Nat.pow 2 11
  let fraction : Nat := bits % hidden
  if exponent = 2047 then
    if fraction = 0 then .infinite negative else .notANumber
  else if exponent = 0 then .finite negative ⟨fraction, -1074, false⟩
  else .finite negative ⟨hidden + fraction, (exponent : Int) - 1075, fraction == 0 && exponent > 1⟩

def Value.ofFloat (x : Float) : Value := .ofBits x.toBits.toNat

structure Scaled where
  digits : Nat
  exponent : Int
deriving DecidableEq, Repr

def compareScaled (a : Nat) (i : Int) (n : Nat) (j : Int) : Ordering :=
  compare (a * Nat.pow 10 i.toNat * Nat.pow 2 (-j).toNat)
    (n * Nat.pow 2 j.toNat * Nat.pow 10 (-i).toNat)

/-- The decimal lies among the reals that round to the value, to nearest and with ties to even. -/
def Binary.readsBack (x : Binary) (d : Scaled) : Bool :=
  let low := if x.narrowBelow then 4 * x.mantissa - 1 else 4 * x.mantissa - 2
  let high := 4 * x.mantissa + 2
  let closed := x.mantissa % 2 == 0
  let atLow := compareScaled d.digits d.exponent low (x.exponent - 2)
  let atHigh := compareScaled d.digits d.exponent high (x.exponent - 2)
  (atLow == .gt || closed && atLow == .eq) && (atHigh == .lt || closed && atHigh == .eq)

end LoadableSched.Decimal
