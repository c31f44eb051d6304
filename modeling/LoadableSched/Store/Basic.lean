import LoadableSched.Bytes
import LoadableSched.Errno

/-!
Bounded stores of fixed-width keys and values. A hash store refuses a new key once it is full; a
recency store makes room by dropping the entry that was not used for the longest time.
-/

namespace LoadableSched

inductive Eviction where
  | none
  | leastRecent
deriving DecidableEq, Repr

def Eviction.name : Eviction → String
  | none => "none"
  | leastRecent => "lru"

inductive MapKind where
  | hash
  | lruHash
  | array
  /-- Holds the implementation of a scheduler and nothing that can be read or written. -/
  | structOps
deriving DecidableEq, Repr

namespace MapKind

def name : MapKind → String
  | hash => "hash"
  | lruHash => "lru_hash"
  | array => "array"
  | structOps => "struct_ops"

def all : List MapKind := [hash, lruHash, array, structOps]

def ofName? (text : String) : Option MapKind := all.find? (·.name = text)

def eviction : MapKind → Eviction
  | lruHash => .leastRecent
  | _ => .none

end MapKind

structure Layout where
  keySize : UInt32
  valueSize : UInt32
  capacity : UInt32
deriving DecidableEq, Repr

def Layout.accepts (l : Layout) (key value : Bytes) : Bool :=
  key.length = l.keySize.toNat && value.length = l.valueSize.toNat

/-- A store; the entries of a recency store stand in the order of their last use, latest first. -/
structure Store where
  layout : Layout
  eviction : Eviction
  entries : List (Bytes × Bytes)
deriving DecidableEq, Repr

namespace Store

def empty (kind : MapKind) (layout : Layout) : Store := ⟨layout, kind.eviction, []⟩

instance : Inhabited Store := ⟨empty .hash ⟨0, 0, 0⟩⟩

def size (s : Store) : Nat := s.entries.length

def capacity (s : Store) : Nat := s.layout.capacity.toNat

def peek? (s : Store) (key : Bytes) : Option Bytes := s.entries.lookup key

def without (s : Store) (key : Bytes) : List (Bytes × Bytes) := s.entries.filter (·.1 ≠ key)

/-- The value under a key; in a recency store this is a use of the entry. -/
def get (s : Store) (key : Bytes) : Option Bytes × Store :=
  match s.peek? key with
  | none => (none, s)
  | some value =>
    match s.eviction with
    | .none => (some value, s)
    | .leastRecent => (some value, { s with entries := (key, value) :: s.without key })

def overwrite (s : Store) (key value : Bytes) : Store :=
  { s with entries := s.entries.map fun (k, v) => if k = key then (k, value) else (k, v) }

def put (s : Store) (key value : Bytes) : Except Errno Store :=
  if !s.layout.accepts key value then .error .invalid
  else
    match s.eviction with
    | .none =>
      if (s.peek? key).isSome then .ok (s.overwrite key value)
      else if s.capacity ≤ s.size then .error .tooBig
      else .ok { s with entries := s.entries ++ [(key, value)] }
    | .leastRecent =>
      .ok { s with entries := ((key, value) :: s.without key).take s.capacity }

def delete (s : Store) (key : Bytes) : Bool × Store :=
  ((s.peek? key).isSome, { s with entries := s.without key })

end Store

end LoadableSched
