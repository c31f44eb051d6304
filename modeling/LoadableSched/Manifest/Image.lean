import LoadableSched.Manifest.Basic

/-!
Images of extensions. The native format is a magic number followed by the manifest: numbers of fixed
width with the low byte first, texts and lists behind their lengths, choices as numbers. Each part is
written by one function and read back by another.
-/

namespace LoadableSched.Image

def magic : Bytes := [0x53, 0x43, 0x58, 0x4f, 0x42, 0x4a, 0x00, 0x01]

/-! Writing. -/

def putWord (n : UInt32) : Bytes := Bytes.ofNat 4 n.toNat

def putLength (n : Nat) : Bytes := Bytes.ofNat 8 n

def putBool (b : Bool) : Bytes := [if b then 1 else 0]

def putText (text : String) : Bytes :=
  let bytes := text.toUTF8.data.toList
  putLength bytes.length ++ bytes

def putList {α : Type} (put : α → Bytes) (items : List α) : Bytes :=
  putLength items.length ++ (items.map put).flatten

def kindNumber : MapKind → UInt32
  | .hash => 0
  | .lruHash => 1
  | .array => 2
  | .structOps => 3

def putEntryPoint (e : EntryPoint) : Bytes :=
  putText e.name ++ putText e.sectionName ++ putBool e.autoAttach

def putMap (s : MapSpec) : Bytes :=
  putText s.name ++ putWord (kindNumber s.kind) ++ putWord s.layout.keySize
    ++ putWord s.layout.valueSize ++ putWord s.layout.capacity

def putProperty (p : String × String) : Bytes := putText p.1 ++ putText p.2

def putManifest (m : Manifest) : Bytes :=
  putText m.name ++ putText m.license ++ putList putEntryPoint m.entryPoints ++ putList putMap m.maps
    ++ putList putProperty m.properties.entries

def encode (m : Manifest) : Bytes := magic ++ putManifest m

/-! Reading. A part takes its bytes from the front and leaves the rest. -/

abbrev Take (α : Type) := Bytes → Option (α × Bytes)

def takeBytes (count : Nat) : Take Bytes := fun bytes =>
  if count ≤ bytes.length then some (bytes.take count, bytes.drop count) else none

def takeWord : Take UInt32 := fun bytes =>
  (takeBytes 4 bytes).map fun (digits, rest) => (UInt32.ofNat (Bytes.toNat digits), rest)

def takeLength : Take Nat := fun bytes =>
  (takeBytes 8 bytes).map fun (digits, rest) => (Bytes.toNat digits, rest)

def takeBool : Take Bool
  | 0 :: rest => some (false, rest)
  | 1 :: rest => some (true, rest)
  | _ => none

def takeText : Take String := fun bytes => do
  let (count, rest) ← takeLength bytes
  let (digits, rest) ← takeBytes count rest
  let text ← String.fromUTF8? (ByteArray.mk digits.toArray)
  some (text, rest)

def takeMany {α : Type} (item : Take α) : Nat → Take (List α)
  | 0, bytes => some ([], bytes)
  | count + 1, bytes => do
    let (first, rest) ← item bytes
    let (others, rest) ← takeMany item count rest
    some (first :: others, rest)

/-- A list behind its length. Every item takes up bytes, so a length beyond theirs is refused. -/
def takeList {α : Type} (item : Take α) : Take (List α) := fun bytes => do
  let (count, rest) ← takeLength bytes
  if rest.length < count then none else takeMany item count rest

def takeKind : Take MapKind := fun bytes => do
  let (n, rest) ← takeWord bytes
  let kind ← MapKind.all[n.toNat]?
  some (kind, rest)

def takeEntryPoint : Take EntryPoint := fun bytes => do
  let (name, rest) ← takeText bytes
  let (sectionName, rest) ← takeText rest
  let (autoAttach, rest) ← takeBool rest
  some (⟨name, sectionName, autoAttach⟩, rest)

def takeMap : Take MapSpec := fun bytes => do
  let (name, rest) ← takeText bytes
  let (kind, rest) ← takeKind rest
  let (keySize, rest) ← takeWord rest
  let (valueSize, rest) ← takeWord rest
  let (capacity, rest) ← takeWord rest
  some (⟨name, kind, ⟨keySize, valueSize, capacity⟩⟩, rest)

def takeProperty : Take (String × String) := fun bytes => do
  let (key, rest) ← takeText bytes
  let (value, rest) ← takeText rest
  some ((key, value), rest)

def takeManifest : Take Manifest := fun bytes => do
  let (name, rest) ← takeText bytes
  let (license, rest) ← takeText rest
  let (entryPoints, rest) ← takeList takeEntryPoint rest
  let (maps, rest) ← takeList takeMap rest
  let (properties, rest) ← takeList takeProperty rest
  some (⟨name, license, entryPoints, maps, Table.ofList properties⟩, rest)

/-- The manifest of a native image, whatever follows it. Bytes without the magic number are of
another format; any other defect makes the image invalid. -/
def decode (bytes : Bytes) : Except Errno Manifest :=
  if magic.isPrefixOf bytes then
    match takeManifest (bytes.drop magic.length) with
    | some (m, _) => .ok m
    | none => .error .invalid
  else .error .notExecutable

end LoadableSched.Image

namespace LoadableSched

/-- An extension as it is handed over: its bytes, and the manifest that describes them. -/
structure Image where
  manifest : Manifest
  bytes : Bytes
deriving DecidableEq, Repr

namespace Image

def ofParts (manifest : Manifest) (bytes : Bytes) : Except Manifest.Fault Image :=
  match manifest.validate with
  | .error fault => .error fault
  | .ok () => .ok ⟨manifest, bytes⟩

def native (manifest : Manifest) : Except Manifest.Fault Image := ofParts manifest (encode manifest)

end Image

end LoadableSched
