import LoadableSched.Bytes

/-!
Hexadecimal text: two digits for a byte, the high one first, written in lower case and read in either.
-/

namespace LoadableSched.Hex

def pair (n : Nat) : String := String.ofList [Nat.digitChar (n / 16), Nat.digitChar (n % 16)]

def text (bytes : Bytes) : String := String.join (bytes.map fun b => pair b.toNat)

def value (c : Char) : Nat :=
  if c.isDigit then c.toNat - '0'.toNat
  else if 'a' ≤ c && c ≤ 'f' then c.toNat - 'a'.toNat + 10
  else if 'A' ≤ c && c ≤ 'F' then c.toNat - 'A'.toNat + 10
  else 0

def bytes : List Char → Bytes
  | high :: low :: rest => UInt8.ofNat (value high * 16 + value low) :: bytes rest
  | _ => []

end LoadableSched.Hex
