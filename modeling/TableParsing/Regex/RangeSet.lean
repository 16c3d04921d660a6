/-!
# Sets of numbers as ranges

Character classes are built from ranges by union, intersection, difference and complement. A set is
kept as the list of its maximal ranges in increasing order, so the order in which it was written
does not show.
-/

namespace TableParsing

/-- A finite set of natural numbers, as inclusive ranges in increasing order with gaps between
them. -/
structure RangeSet where
  ranges : List (Nat × Nat)
  deriving DecidableEq

namespace RangeSet

def empty : RangeSet := ⟨[]⟩

/-- The numbers from `low` to `high`, both included. -/
def range (low high : Nat) : RangeSet := if low ≤ high then ⟨[(low, high)]⟩ else empty

def singleton (n : Nat) : RangeSet := range n n

def contains (s : RangeSet) (n : Nat) : Bool := s.ranges.any fun r => r.1 ≤ n && n ≤ r.2

/-- Add a range to a list of separated ranges, joining it with those that it touches. -/
def insertRange (r : Nat × Nat) : List (Nat × Nat) → List (Nat × Nat)
  | [] => [r]
  | s :: rest =>
    if r.2 + 1 < s.1 then r :: s :: rest
    else if s.2 + 1 < r.1 then s :: insertRange r rest
    else insertRange (min r.1 s.1, max r.2 s.2) rest

def union (s t : RangeSet) : RangeSet := ⟨s.ranges.foldl (fun acc r => insertRange r acc) t.ranges⟩

/-- The ranges from `low` to `top` that lie between separated ranges. -/
def gaps (top : Nat) : Nat → List (Nat × Nat) → List (Nat × Nat)
  | low, [] => if low ≤ top then [(low, top)] else []
  | low, r :: rest => if low < r.1 then (low, r.1 - 1) :: gaps top (r.2 + 1) rest
    else gaps top (r.2 + 1) rest

/-- The numbers up to `top` that are not in a set. -/
def complement (top : Nat) (s : RangeSet) : RangeSet := ⟨gaps top 0 s.ranges⟩

/-- The members of both sets, all sets being taken within the numbers up to `top`. -/
def intersection (top : Nat) (s t : RangeSet) : RangeSet :=
  ((s.complement top).union (t.complement top)).complement top

def difference (top : Nat) (s t : RangeSet) : RangeSet := s.intersection top (t.complement top)

def symmetricDifference (top : Nat) (s t : RangeSet) : RangeSet :=
  (s.difference top t).union (t.difference top s)

def unions (sets : List RangeSet) : RangeSet := sets.foldl union empty

/-- The members between `low` and `high`. -/
def within (low high : Nat) (s : RangeSet) : List (Nat × Nat) :=
  s.ranges.filterMap fun r =>
    let clipped := (max low r.1, min high r.2)
    if clipped.1 ≤ clipped.2 then some clipped else none

def asciiUpper : RangeSet := range 0x41 0x5A

def asciiLower : RangeSet := range 0x61 0x7A

/-- A set together with the other case of every ASCII letter in it. -/
def foldCase (s : RangeSet) : RangeSet :=
  let lowered := (s.within 0x41 0x5A).map fun r => (r.1 + 32, r.2 + 32)
  let raised := (s.within 0x61 0x7A).map fun r => (r.1 - 32, r.2 - 32)
  (lowered ++ raised).foldl (fun acc r => acc.union ⟨[r]⟩) s

end RangeSet

end TableParsing
