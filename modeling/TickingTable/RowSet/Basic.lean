/-! Sets of row keys, stored as ascending intervals with gaps between them. -/

namespace TickingTable

/-- The last 64-bit key. No row has it, so the end of every interval fits in 64 bits. -/
def reservedKey : Nat := 0xFFFFFFFFFFFFFFFF

/-- The keys from `lo` up to but not including `hi`. -/
structure Interval where
  lo : Nat
  hi : Nat
deriving DecidableEq

namespace Interval

def size (i : Interval) : Nat := i.hi - i.lo

def keys (i : Interval) : List Nat := List.range' i.lo i.size

/-- Every interval holds a key and a gap separates it from those that follow. -/
def Canonical (l : List Interval) : Prop :=
  (∀ i ∈ l, i.lo < i.hi) ∧ l.Pairwise fun a b => a.hi < b.lo

/-- Whether the intervals start in ascending order. -/
def ascending : List Interval → Bool
  | a :: b :: l => decide (a.lo ≤ b.lo) && ascending (b :: l)
  | _ => true

def sort (l : List Interval) : List Interval :=
  if ascending l then l else l.mergeSort fun a b => decide (a.lo ≤ b.lo)

/-- Extends `current` over the intervals that overlap or touch it. -/
def coalesceFrom (current : Interval) : List Interval → List Interval
  | [] => [current]
  | i :: l =>
    if i.lo ≤ current.hi then coalesceFrom ⟨current.lo, max current.hi i.hi⟩ l
    else current :: coalesceFrom i l

def coalesce : List Interval → List Interval
  | [] => []
  | i :: l => coalesceFrom i l

theorem pairwise_of_ascending {l : List Interval} (h : ascending l = true) :
    l.Pairwise fun a b => a.lo ≤ b.lo := by
  induction l with
  | nil => exact .nil
  | cons a l ih =>
    cases l with
    | nil => simp
    | cons b l =>
      simp only [ascending, Bool.and_eq_true, decide_eq_true_eq] at h
      have hl := ih h.2
      refine List.pairwise_cons.2 ⟨fun c hc => ?_, hl⟩
      rcases List.mem_cons.1 hc with rfl | hc
      · exact h.1
      · exact Nat.le_trans h.1 ((List.pairwise_cons.1 hl).1 c hc)

theorem pairwise_sort (l : List Interval) : (sort l).Pairwise fun a b => a.lo ≤ b.lo := by
  unfold sort
  split
  · exact pairwise_of_ascending ‹_›
  · have h := @List.pairwise_mergeSort _ (fun a b : Interval => decide (a.lo ≤ b.lo))
      (fun a b c => by simpa using fun h k => Nat.le_trans h k)
      (fun a b => by simpa using Nat.le_total a.lo b.lo) l
    exact h.imp fun h => by simpa using h

theorem mem_sort {l : List Interval} {i : Interval} : i ∈ sort l ↔ i ∈ l := by
  unfold sort
  split
  · rfl
  · exact List.mem_mergeSort

theorem le_lo_of_mem_coalesceFrom {l : List Interval} {c i : Interval} {n : Nat}
    (hc : n ≤ c.lo) (hl : ∀ a ∈ l, n ≤ a.lo) (h : i ∈ coalesceFrom c l) : n ≤ i.lo := by
  induction l generalizing c with
  | nil => simp_all [coalesceFrom]
  | cons a l ih =>
    have hl' : ∀ b ∈ l, n ≤ b.lo := fun b hb => hl b (List.mem_cons_of_mem _ hb)
    simp only [coalesceFrom] at h
    split at h
    · exact ih (c := ⟨c.lo, max c.hi a.hi⟩) hc hl' h
    · rcases List.mem_cons.1 h with rfl | h
      · exact hc
      · exact ih (hl a List.mem_cons_self) hl' h

theorem canonical_coalesceFrom {l : List Interval} {c : Interval} (hc : c.lo < c.hi)
    (hn : ∀ i ∈ l, i.lo < i.hi) (hs : l.Pairwise fun a b => a.lo ≤ b.lo) :
    Canonical (coalesceFrom c l) := by
  induction l generalizing c with
  | nil => exact ⟨by simpa [coalesceFrom] using hc, by simp [coalesceFrom]⟩
  | cons a l ih =>
    have hn' : ∀ i ∈ l, i.lo < i.hi := fun i hi => hn i (List.mem_cons_of_mem _ hi)
    have hs' := List.pairwise_cons.1 hs
    simp only [coalesceFrom]
    split
    · exact ih (c := ⟨c.lo, max c.hi a.hi⟩) (Nat.lt_of_lt_of_le hc (Nat.le_max_left _ _)) hn' hs'.2
    · next hgap =>
      have ht := ih (hn a List.mem_cons_self) hn' hs'.2
      refine ⟨fun i hi => ?_, List.pairwise_cons.2 ⟨fun i hi => ?_, ht.2⟩⟩
      · rcases List.mem_cons.1 hi with rfl | hi
        · exact hc
        · exact ht.1 i hi
      · exact Nat.lt_of_lt_of_le (Nat.lt_of_not_le hgap)
          (le_lo_of_mem_coalesceFrom (Nat.le_refl _) hs'.1 hi)

theorem canonical_coalesce {l : List Interval} (hn : ∀ i ∈ l, i.lo < i.hi)
    (hs : l.Pairwise fun a b => a.lo ≤ b.lo) : Canonical (coalesce l) := by
  cases l with
  | nil => exact ⟨by simp [coalesce], .nil⟩
  | cons a l =>
    exact canonical_coalesceFrom (hn a List.mem_cons_self)
      (fun i hi => hn i (List.mem_cons_of_mem _ hi)) (List.pairwise_cons.1 hs).2

end Interval

/-- A set of row keys or row positions. -/
structure RowSet where
  intervals : List Interval
  canonical : Interval.Canonical intervals
deriving DecidableEq

namespace RowSet

/-- Collects keys and intervals in any order. -/
structure Builder where
  /-- The intervals added so far, the latest first. -/
  latestFirst : List Interval
  nonempty : ∀ i ∈ latestFirst, i.lo < i.hi

namespace Builder

def empty : Builder := ⟨[], by simp⟩

/-- Adds the keys from `lo` up to `hi`, growing the latest interval if the new one starts in it. -/
def addInterval (b : Builder) (lo hi : Nat) : Builder :=
  if h : lo < hi then
    match hb : b.latestFirst with
    | [] => ⟨[⟨lo, hi⟩], by simpa using h⟩
    | last :: earlier =>
      have hn : ∀ i ∈ last :: earlier, i.lo < i.hi := hb ▸ b.nonempty
      if last.lo ≤ lo ∧ lo ≤ last.hi then
        ⟨⟨last.lo, max last.hi hi⟩ :: earlier, by
          intro i hi'
          rcases List.mem_cons.1 hi' with rfl | hi'
          · exact Nat.lt_of_lt_of_le (hn last List.mem_cons_self) (Nat.le_max_left _ _)
          · exact hn i (List.mem_cons_of_mem _ hi')⟩
      else
        ⟨⟨lo, hi⟩ :: last :: earlier, by
          intro i hi'
          rcases List.mem_cons.1 hi' with rfl | hi'
          · exact h
          · exact hn i hi'⟩
  else b

/-- Adds one key. The reserved key has no successor in 64 bits and is not added. -/
def addKey (b : Builder) (key : Nat) : Builder :=
  b.addInterval key (min (key + 1) reservedKey)

def addAll (b : Builder) (l : List Interval) : Builder :=
  l.foldl (fun b i => b.addInterval i.lo i.hi) b

def build (b : Builder) : RowSet where
  intervals := Interval.coalesce (Interval.sort b.latestFirst.reverse)
  canonical := Interval.canonical_coalesce
    (fun i hi => b.nonempty i (List.mem_reverse.1 (Interval.mem_sort.1 hi)))
    (Interval.pairwise_sort _)

end Builder

def empty : RowSet := ⟨[], by simp, .nil⟩

instance : Inhabited RowSet := ⟨empty⟩

def ofIntervals (l : List Interval) : RowSet := (Builder.empty.addAll l).build

def ofInterval (lo hi : Nat) : RowSet := ofIntervals [⟨lo, hi⟩]

/-- The first `n` positions. -/
def positions (n : Nat) : RowSet := ofInterval 0 n

def ofKeys (keys : List Nat) : RowSet := (keys.foldl Builder.addKey Builder.empty).build

def size (r : RowSet) : Nat := r.intervals.foldr (fun i n => i.size + n) 0

def isEmpty (r : RowSet) : Bool := r.intervals.isEmpty

def first? (r : RowSet) : Option Nat := r.intervals.head?.map Interval.lo

def last? (r : RowSet) : Option Nat := r.intervals.getLast?.map fun i => i.hi - 1

instance : Membership Nat RowSet := ⟨fun r key => ∃ i ∈ r.intervals, i.lo ≤ key ∧ key < i.hi⟩

/-- The members in ascending order. -/
def toList (r : RowSet) : List Nat := r.intervals.flatMap Interval.keys

/-- The first `n` members in ascending order. -/
def take (r : RowSet) (n : Nat) : List Nat := go n r.intervals
where
  go : Nat → List Interval → List Nat
  | _, [] => []
  | n, i :: l =>
    let count := min n i.size
    if n = 0 then [] else List.range' i.lo count ++ go (n - count) l

/-- The least index from `lo` to `n` at which `p` fails, for a `p` that holds up to some index
and fails from there. -/
def partitionPoint (p : Nat → Bool) (lo n : Nat) : Nat :=
  if h : lo < n then
    let mid := lo + (n - lo) / 2
    if p mid then partitionPoint p (mid + 1) n else partitionPoint p lo mid
  else lo
termination_by n - lo

/-- Finds the first interval that ends above `key` by bisection and looks whether it starts in time. -/
def contains (r : RowSet) (key : Nat) : Bool :=
  let a := r.intervals.toArray
  let i := partitionPoint (fun i => a[i]?.any fun b => decide (b.hi ≤ key)) 0 a.size
  a[i]?.any fun b => decide (b.lo ≤ key)

end RowSet
end TickingTable
