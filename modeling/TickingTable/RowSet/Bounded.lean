import TickingTable.RowSet.Algebra
import TickingTable.RowSet.Shift

/-! Shifts and positions in 64-bit sums, which stop at a sum that does not fit. -/

namespace TickingTable

/-- Two 64-bit numbers whose sum is none. -/
structure SumOverflow where
  left : Nat
  right : Nat
deriving DecidableEq

def SumOverflow.message (_ : SumOverflow) : String := "attempt to add with overflow"

namespace Bounded

def sum (m n : Nat) : Except SumOverflow Nat :=
  if m + n ≤ reservedKey then .ok (m + n) else .error ⟨m, n⟩

def image (s : ShiftRange) (lo hi : Nat) : Except SumOverflow Interval := do
  let start ← sum s.dest (lo - s.first)
  return ⟨start, ← sum start (hi - lo)⟩

/-- The pieces into which ranges cut the keys from `lo` up to `hi`, moved to their places. The end of
a piece is the key after its last one. -/
def movedPieces (lo hi : Nat) : List ShiftRange → Except SumOverflow (List Interval)
  | [] => return if lo < hi then [⟨lo, hi⟩] else []
  | s :: l =>
    if hi ≤ lo then return []
    else if s.last < lo then movedPieces lo hi l
    else do
      let stop := min hi (min (s.last + 1) reservedKey)
      if s.first ≤ lo then return (← image s lo stop) :: (← movedPieces stop hi l)
      else if s.first < hi then
        return ⟨lo, s.first⟩ :: (← image s s.first stop) :: (← movedPieces stop hi l)
      else return [⟨lo, hi⟩]

def moveAll : List Interval → List ShiftRange → Except SumOverflow (List Interval)
  | [], _ => return []
  | i :: l, shifts => do
    let ahead := shifts.dropWhile fun s => decide (s.last < i.lo)
    return (← movedPieces i.lo i.hi ahead) ++ (← moveAll l ahead)

def skipBelow (key rank : Nat) : List Interval → Except SumOverflow (Nat × List Interval)
  | [] => return (rank, [])
  | i :: l => do
    if i.hi ≤ key then skipBelow key (← sum rank i.size) l else return (rank, i :: l)

/-- The ranks, counted from `rank`, of the keys of the second list among those of the first. The end
of an interval is added to the rank before the start of the one that holds it is taken away. -/
def ranks (rank : Nat) :
    List Interval → List Interval → Except SumOverflow (Option (List Interval))
  | _, [] => return some []
  | own, i :: subset => do
    match ← skipBelow i.lo rank own with
    | (_, []) => return none
    | (rank, o :: own) =>
      if i.lo < o.lo ∨ o.hi < i.hi then return none
      else
        let first ← sum rank i.lo
        let last ← sum rank i.hi
        return (← ranks rank (o :: own) subset).map fun l => ⟨first - o.lo, last - o.lo⟩ :: l

end Bounded

namespace RowSet

/-- The number of members. -/
def count (r : RowSet) : Except SumOverflow Nat :=
  r.intervals.foldlM (fun n i => Bounded.sum n i.size) 0

/-- Moves the members of `r`, unless the ranges are malformed or would reorder or merge members. The
ranges are checked by their last keys, so that only the end of a piece can leave 64 bits. -/
def shift (r : RowSet) (shifts : List ShiftRange) : Except SumOverflow (Option RowSet) := do
  if shifts.isEmpty then return some r
  else if ShiftRange.wellFormed shifts then
    let moved ← Bounded.moveAll r.intervals shifts
    return if Interval.reordered moved then none else some (.ofIntervals moved)
  else return none

/-- For each member of `subset` its rank within `r`, unless some member of `subset` is not in `r`. -/
def positionsOf (r subset : RowSet) : Except SumOverflow (Option RowSet) := do
  return (← Bounded.ranks 0 r.intervals subset.intervals).map ofIntervals

end RowSet
end TickingTable
