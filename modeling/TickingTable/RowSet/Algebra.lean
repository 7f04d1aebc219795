import TickingTable.RowSet.Basic

/-! Union, difference, intersection test and ranks of row sets. -/

namespace TickingTable
namespace Interval

/-- What is left of the keys from `lo` up to `hi` without the ascending intervals `cuts`. -/
def without (lo hi : Nat) : List Interval → List Interval
  | [] => if lo < hi then [⟨lo, hi⟩] else []
  | cut :: cuts =>
    if lo < hi then
      if cut.lo < hi then
        let rest := without (max lo cut.hi) hi cuts
        if lo < cut.lo then ⟨lo, cut.lo⟩ :: rest else rest
      else [⟨lo, hi⟩]
    else []

def difference : List Interval → List Interval → List Interval
  | [], _ => []
  | i :: l, cuts =>
    let ahead := cuts.dropWhile fun c => decide (c.hi ≤ i.lo)
    without i.lo i.hi ahead ++ difference l ahead

/-- Whether two ascending lists share a key. The list whose head ends first moves on. -/
def overlap : List Interval → List Interval → Bool
  | a :: l, b :: m =>
    if max a.lo b.lo < min a.hi b.hi then true
    else if a.hi ≤ b.hi then overlap l (b :: m)
    else overlap (a :: l) m
  | _, _ => false
termination_by l m => l.length + m.length

/-- Skips the intervals that end at or below `key` and adds their sizes to `rank`. -/
def skipBelow (key rank : Nat) : List Interval → Nat × List Interval
  | [] => (rank, [])
  | i :: l => if i.hi ≤ key then skipBelow key (rank + i.size) l else (rank, i :: l)

/-- The ranks, counted from `rank`, of the keys of the second list among those of the first. -/
def ranks (rank : Nat) : List Interval → List Interval → Option (List Interval)
  | _, [] => some []
  | own, i :: subset =>
    match skipBelow i.lo rank own with
    | (_, []) => none
    | (rank, o :: own) =>
      if i.lo < o.lo ∨ o.hi < i.hi then none
      else
        (ranks rank (o :: own) subset).map fun l =>
          ⟨rank + i.lo - o.lo, rank + i.hi - o.lo⟩ :: l

end Interval

namespace RowSet

def union (r s : RowSet) : RowSet := ofIntervals (r.intervals ++ s.intervals)

/-- The members of `r` that are not in `s`. -/
def difference (r s : RowSet) : RowSet :=
  ofIntervals (Interval.difference r.intervals s.intervals)

def intersects (r s : RowSet) : Bool := Interval.overlap r.intervals s.intervals

/-- For each member of `subset` its rank within `r`, unless some member of `subset` is not in `r`. -/
def positionsOf? (r subset : RowSet) : Option RowSet :=
  (Interval.ranks 0 r.intervals subset.intervals).map ofIntervals

end RowSet
end TickingTable
