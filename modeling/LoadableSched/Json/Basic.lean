/-!
JSON texts as values whose numbers keep the digits they were written with.
-/

namespace LoadableSched.Json

structure Numeral where
  negative : Bool
  whole : List Char
  fraction : List Char
  exponent : Option (Bool × List Char)
deriving DecidableEq, Repr

inductive Piece where
  | char (c : Char)
  | unit (u : Nat)
deriving DecidableEq, Repr

inductive Value where
  | null
  | bool (b : Bool)
  | number (n : Numeral)
  | string (pieces : List Piece)
  | array (items : List Value)
  | object (members : List (List Piece × Value))
deriving Repr

/-- The text of a string; units above the basic plane come in pairs, and one alone has no text. -/
def text? : List Piece → Option (List Char)
  | [] => some []
  | .char c :: rest => (text? rest).map (c :: ·)
  | .unit u :: rest =>
    if u < 0xD800 || 0xE000 ≤ u then (text? rest).map (Char.ofNat u :: ·)
    else if u < 0xDC00 then
      match rest with
      | .unit v :: rest =>
        if 0xDC00 ≤ v && v < 0xE000 then
          (text? rest).map (Char.ofNat (0x10000 + (u - 0xD800) * 0x400 + (v - 0xDC00)) :: ·)
        else none
      | _ => none
    else none

end LoadableSched.Json
