import LoadableSched.Store.Run

/-!
Written words are read back as they were, and every word of the right width can be read.
-/

namespace LoadableSched

/-- Values that are read back as they were written, out of words of which every one can be read. -/
class LawfulWord (α : Type) [Word α] : Prop where
  length_encode (x : α) : (Word.encode x).length = (Word.width α).toNat
  decode_encode (x : α) : Word.decode? (Word.encode x) = some x
  readable (bytes : Bytes) : bytes.length = (Word.width α).toNat → (Word.decode? bytes : Option α).isSome

theorem LawfulWord.of_number {α : Type} [Word α] (width : Nat) (number : α → Nat) (ofNumber : Nat → α)
    (wide : (Word.width α).toNat = width) (encode : ∀ x : α, Word.encode x = Bytes.ofNat width (number x))
    (decode : ∀ bytes, Word.decode? bytes =
      if bytes.length = width then some (ofNumber (Bytes.toNat bytes)) else none)
    (small : ∀ x, number x < Nat.pow 256 width) (back : ∀ x, ofNumber (number x) = x) : LawfulWord α where
  length_encode x := by rw [encode, wide, Bytes.length_ofNat]
  decode_encode x := by
    rw [encode, decode, if_pos (Bytes.length_ofNat _ _), Bytes.toNat_ofNat, Nat.mod_eq_of_lt (small x), back]
  readable bytes same := by rw [decode, if_pos (same.trans wide), Option.isSome_some]

instance : LawfulWord UInt32 :=
  .of_number 4 UInt32.toNat UInt32.ofNat rfl (fun _ => rfl) (fun _ => rfl) UInt32.toNat_lt
    (fun _ => UInt32.ofNat_toNat)

instance : LawfulWord UInt64 :=
  .of_number 8 UInt64.toNat UInt64.ofNat rfl (fun _ => rfl) (fun _ => rfl) UInt64.toNat_lt
    (fun _ => UInt64.ofNat_toNat)

instance : LawfulWord Int32 :=
  .of_number 4 (·.toUInt32.toNat) (fun n => (UInt32.ofNat n).toInt32) rfl (fun _ => rfl) (fun _ => rfl)
    (fun x => x.toUInt32.toNat_lt) (fun _ => by rw [UInt32.ofNat_toNat, Int32.toInt32_toUInt32])

instance : LawfulWord Int64 :=
  .of_number 8 (·.toUInt64.toNat) (fun n => (UInt64.ofNat n).toInt64) rfl (fun _ => rfl) (fun _ => rfl)
    (fun x => x.toUInt64.toNat_lt) (fun _ => by rw [UInt64.ofNat_toNat, Int64.toInt64_toUInt64])

instance : (kind : WordKind) → LawfulWord kind.Value
  | .unsigned32 => inferInstanceAs (LawfulWord UInt32)
  | .unsigned64 => inferInstanceAs (LawfulWord UInt64)
  | .signed32 => inferInstanceAs (LawfulWord Int32)
  | .signed64 => inferInstanceAs (LawfulWord Int64)

namespace Word

variable {α : Type} [Word α] [LawfulWord α] {x y : α}

@[simp] theorem decode_encode (x : α) : decode? (encode x) = some x := LawfulWord.decode_encode x

theorem length_encode (x : α) : (encode x).length = (width α).toNat := LawfulWord.length_encode x

theorem encode_inj (same : encode x = encode y) : x = y :=
  Option.some.inj ((decode_encode x).symm.trans ((congrArg decode? same).trans (decode_encode y)))

end Word

end LoadableSched
