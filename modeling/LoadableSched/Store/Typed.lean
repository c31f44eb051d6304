import LoadableSched.Store.Basic
import LoadableSched.Text.Quoted

/-!
A typed view of a store: keys and values that are written as little-endian words of a fixed width.
-/

namespace LoadableSched

/-- Values with a written form of a fixed width. -/
class Word (α : Type) where
  width : UInt32
  encode : α → Bytes
  decode? : Bytes → Option α

instance : Word UInt32 where
  width := 4
  encode x := Bytes.ofNat 4 x.toNat
  decode? bytes := if bytes.length = 4 then some (UInt32.ofNat (Bytes.toNat bytes)) else none

instance : Word UInt64 where
  width := 8
  encode x := Bytes.ofNat 8 x.toNat
  decode? bytes := if bytes.length = 8 then some (UInt64.ofNat (Bytes.toNat bytes)) else none

instance : Word Int32 where
  width := 4
  encode x := Bytes.ofNat 4 x.toUInt32.toNat
  decode? bytes :=
    if bytes.length = 4 then some (UInt32.ofNat (Bytes.toNat bytes)).toInt32 else none

instance : Word Int64 where
  width := 8
  encode x := Bytes.ofNat 8 x.toUInt64.toNat
  decode? bytes :=
    if bytes.length = 8 then some (UInt64.ofNat (Bytes.toNat bytes)).toInt64 else none

namespace Store

def getTyped {κ : Type} (ν : Type) [Word κ] [Word ν] (s : Store) (key : κ) : Option ν × Store :=
  let (bytes, s) := s.get (Word.encode key)
  (bytes.bind Word.decode?, s)

def putTyped {κ ν : Type} [Word κ] [Word ν] (s : Store) (key : κ) (value : ν) : Except Errno Store :=
  s.put (Word.encode key) (Word.encode value)

def deleteTyped {κ : Type} [Word κ] (s : Store) (key : κ) : Bool × Store :=
  s.delete (Word.encode key)

def description (s : Store) (name : String) : String :=
  let eviction :=
    match s.eviction with
    | .none => "None"
    | .leastRecent => "Lru"
  "TypedMap \x7b name: " ++ Text.quoted name ++ ", capacity: " ++ toString s.capacity
    ++ ", eviction: " ++ eviction ++ " \x7d"

end Store

def Layout.fits (κ ν : Type) [Word κ] [Word ν] (l : Layout) : Bool :=
  l.keySize = Word.width κ && l.valueSize = Word.width ν

end LoadableSched
