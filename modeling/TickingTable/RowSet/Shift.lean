import TickingTable.RowSet.Basic

/-! Shift ranges, which move blocks of row keys without reordering rows. -/

namespace TickingTable

/-- The keys from `first` to `last`, both included, move to `dest` and the keys after it. -/
structure ShiftRange where
  first : Nat
  last : Nat
  dest : Nat
deriving DecidableEq

namespace ShiftRange

/-- Neither the range nor its image leaves the 64-bit keys. -/
def inRange (s : ShiftRange) : Bool :=
  decide (s.first ≤ s.last) && decide (s.dest + (s.last - s.first) ≤ reservedKey)

/-- Every range is in range and starts after the end of the one before it. -/
def wellFormed : List ShiftRange → Bool
  | [] => true
  | [s] => s.inRange
  | s :: t :: l => s.inRange && decide (s.last < t.first) && wellFormed (t :: l)

/-- Where the part of the range from `lo` up to `hi` goes. -/
def image (s : ShiftRange) (lo hi : Nat) : Interval :=
  let start := s.dest + (lo - s.first)
  ⟨start, start + (hi - lo)⟩

/-- The pieces into which ranges cut the keys from `lo` up to `hi`, moved to their places. -/
def movedPieces (lo hi : Nat) : List ShiftRange → List Interval
  | [] => if lo < hi then [⟨lo, hi⟩] else []
  | s :: l =>
    if hi ≤ lo then []
    else if s.last < lo then movedPieces lo hi l
    else
      let stop := min hi (min (s.last + 1) reservedKey)
      if s.first ≤ lo then s.image lo stop :: movedPieces stop hi l
      else if s.first < hi then ⟨lo, s.first⟩ :: s.image s.first stop :: movedPieces stop hi l
      else [⟨lo, hi⟩]

def moveAll : List Interval → List ShiftRange → List Interval
  | [], _ => []
  | i :: l, shifts =>
    let ahead := shifts.dropWhile fun s => decide (s.last < i.lo)
    movedPieces i.lo i.hi ahead ++ moveAll l ahead

end ShiftRange

/-- Whether some interval starts before the one ahead of it ends. -/
def Interval.reordered : List Interval → Bool
  | a :: b :: l => decide (b.lo < a.hi) || reordered (b :: l)
  | _ => false

/-- Moves the members of `r`, unless the ranges are malformed or would reorder or merge members. -/
def RowSet.shift? (r : RowSet) (shifts : List ShiftRange) : Option RowSet :=
  if shifts.isEmpty then some r
  else if ShiftRange.wellFormed shifts then
    let moved := ShiftRange.moveAll r.intervals shifts
    if Interval.reordered moved then none else some (.ofIntervals moved)
  else none

end TickingTable
