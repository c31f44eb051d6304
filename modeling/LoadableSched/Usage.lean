import LoadableSched.Tunables.Basic

/-!
How much of its slices a task uses: the time it was charged, a moving average of such times, and
their share of the slice.
-/

namespace LoadableSched.Usage

def used (granted remaining : Nanos) : Nanos := subSat granted remaining

/-- Weighs the average so far by `c` and the sample by what `c` leaves of one, in fixed point. -/
def average (previous sample c : UInt64) : UInt64 :=
  let one := Tunables.fixedOne
  let c := min c.toNat one
  clampWord ((previous.toNat * c + (one - c) * sample.toNat) / one)

def averages (start c : UInt64) : List UInt64 → List UInt64
  | [] => []
  | sample :: rest =>
    let next := average start sample c
    next :: averages next c rest

def worstPercent : UInt64 := 100

def percent (sample : Option Nanos) (slice : Nanos) : UInt64 :=
  match sample with
  | none => worstPercent
  | some u => if slice = 0 then worstPercent else clampWord (u.toNat * 100 / slice.toNat)

end LoadableSched.Usage
