import LoadableSched.Session.Holding

/-!
The holdings of a session in the order they were acquired, and their release: by stage, and within a
stage the latest first.
-/

namespace LoadableSched

structure Teardown where
  released : Nat
  byStage : Table String Nat
  failures : List Failure

namespace Teardown

def empty : Teardown := ⟨0, ∅, []⟩

instance : Inhabited Teardown := ⟨empty⟩

def isClean (r : Teardown) : Bool := r.failures.isEmpty

def merge (r later : Teardown) : Teardown where
  released := r.released + later.released
  byStage := later.byStage.entries.foldl
    (fun t (stage, n) => t.insert stage ((t.get? stage).getD 0 + n)) r.byStage
  failures := r.failures ++ later.failures

def result (r : Teardown) : Except Failure Unit :=
  if r.isClean then .ok () else .error (.teardown r.failures)

end Teardown

structure Holdings where
  items : List Holding
deriving DecidableEq, Repr

namespace Holdings

def empty : Holdings := ⟨[]⟩

def register (s : Holdings) (h : Holding) : Holdings := ⟨s.items ++ [h]⟩

def contains (s : Holdings) (h : Holding) : Bool := s.items.contains h

def size (s : Holdings) : Nat := s.items.length

def count (s : Holdings) (stage : Stage) : Nat := s.items.countP (·.stage = stage)

def eraseLast (s : Holdings) (h : Holding) : Holdings := ⟨(s.items.reverse.erase h).reverse⟩

def notHeld (h : Holding) : Failure := .illegalState (h.text ++ " is not attached to this session")

def take (s : Holdings) (h : Holding) : Except Failure Holdings :=
  if s.contains h then .ok (s.eraseLast h) else .error (notHeld h)

/-- Releases a holding; it stays tracked if the kernel refuses. -/
def detach (s : Holdings) (k : Kernel) (h : Holding) : Except Failure (Holdings × Kernel) :=
  if s.contains h then
    match h.release k with
    | .error e => .error e
    | .ok k => .ok (s.eraseLast h, k)
  else .error (notHeld h)

/-- Walks down the holdings from a place and releases those of a stage, past failures; counts the
successes. A holding is tracked no more once its release was tried. -/
def releaseBelow (stage : Stage) (s : Holdings) (k : Kernel) (released : Nat)
    (failures : List Failure) : Nat → Holdings × (Nat × List Failure) × Kernel
  | 0 => (s, (released, failures), k)
  | i + 1 =>
    match s.items[i]? with
    | none => releaseBelow stage s k released failures i
    | some h =>
      if h.stage ≠ stage then releaseBelow stage s k released failures i
      else
        let s := ⟨s.items.eraseIdx i⟩
        match h.release k with
        | .ok k => releaseBelow stage s k (released + 1) failures i
        | .error e => releaseBelow stage s k released (failures ++ [e]) i

def releaseStage (s : Holdings) (k : Kernel) (stage : Stage) (r : Teardown) :
    Holdings × Teardown × Kernel :=
  let (s, (released, failures), k) := releaseBelow stage s k 0 r.failures s.items.length
  let r := { r with failures }
  let r :=
    if released = 0 then r
    else { r with
      released := r.released + released
      byStage := r.byStage.insert stage.name released }
  (s, r, k)

def releaseStages (s : Holdings) (k : Kernel) (r : Teardown) : List Stage → Holdings × Teardown × Kernel
  | [] => (s, r, k)
  | stage :: rest =>
    let (s, r, k) := s.releaseStage k stage r
    releaseStages s k r rest

def releaseAll (s : Holdings) (k : Kernel) : Holdings × Teardown × Kernel :=
  s.releaseStages k .empty Stage.all

end Holdings

end LoadableSched
