import LoadableSched.Store.Typed

/-!
Runs of one store: what is put into it, looked up and deleted, on its bytes or through the typed view, with
what comes back.
-/

namespace LoadableSched

inductive WordKind where
  | unsigned32
  | unsigned64
  | signed32
  | signed64
deriving DecidableEq, Repr

@[reducible] def WordKind.Value : WordKind → Type
  | unsigned32 => UInt32
  | unsigned64 => UInt64
  | signed32 => Int32
  | signed64 => Int64

instance : (kind : WordKind) → Word kind.Value
  | .unsigned32 => inferInstanceAs (Word UInt32)
  | .unsigned64 => inferInstanceAs (Word UInt64)
  | .signed32 => inferInstanceAs (Word Int32)
  | .signed64 => inferInstanceAs (Word Int64)

instance : (kind : WordKind) → DecidableEq kind.Value
  | .unsigned32 => inferInstanceAs (DecidableEq UInt32)
  | .unsigned64 => inferInstanceAs (DecidableEq UInt64)
  | .signed32 => inferInstanceAs (DecidableEq Int32)
  | .signed64 => inferInstanceAs (DecidableEq Int64)

namespace Store

inductive Operation (κ ν : Type) where
  | put (key : κ) (value : ν)
  | get (key : κ)
  | delete (key : κ)
deriving DecidableEq, Repr

inductive Answer (ν : Type) where
  | put (refusal : Option Errno)
  | get (found : Option ν)
  | delete (present : Bool)
deriving DecidableEq, Repr

variable {σ κ ν : Type}

def settlePut (s : σ) : Except Errno σ → Answer ν × σ
  | .ok s => (.put none, s)
  | .error refusal => (.put (some refusal), s)

def perform (s : Store) : Operation Bytes Bytes → Answer Bytes × Store
  | .put key value => settlePut s (s.put key value)
  | .get key => (s.get key).map .get id
  | .delete key => (s.delete key).map .delete id

def performTyped [Word κ] [Word ν] (s : Store) : Operation κ ν → Answer ν × Store
  | .put key value => settlePut s (s.putTyped key value)
  | .get key => (s.getTyped ν key).map .get id
  | .delete key => (s.deleteTyped key).map .delete id

/-- Calls one after another, each with its answer, and the map after them. -/
def runBy (step : σ → Operation κ ν → Answer ν × σ) (s : σ) :
    List (Operation κ ν) → List (Operation κ ν × Answer ν) × σ
  | [] => ([], s)
  | op :: rest =>
    let (later, last) := runBy step (step s op).2 rest
    ((op, (step s op).1) :: later, last)

def run (s : Store) : List (Operation Bytes Bytes) → List (Operation Bytes Bytes × Answer Bytes) × Store :=
  runBy perform s

def runTyped [Word κ] [Word ν] (s : Store) :
    List (Operation κ ν) → List (Operation κ ν × Answer ν) × Store :=
  runBy performTyped s

end Store

end LoadableSched
