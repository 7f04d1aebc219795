import TickingTable.Proofs.RowSet.Algebra

/-! A row set is determined by its members, and building one never adds intervals. -/

namespace TickingTable
namespace Interval

variable {l m : List Interval} {a b i : Interval} {k : Nat}

theorem Canonical.covers_lo (h : Canonical (a :: l)) : Covers (a :: l) a.lo :=
  covers_cons.2 (Or.inl ⟨Nat.le_refl _, h.lo_lt_hi⟩)

/-- Up to the end of the first interval no other interval holds a key. -/
theorem Canonical.covers_cons_of_le (h : Canonical (a :: l)) (hk : k ≤ a.hi) :
    Covers (a :: l) k ↔ a.lo ≤ k ∧ k < a.hi := by
  rw [covers_cons, or_iff_left (h.not_covers_tail hk)]

theorem Canonical.covers_tail (h : Canonical (a :: l)) :
    Covers l k ↔ Covers (a :: l) k ∧ a.hi < k := by
  constructor
  · intro hk
    exact ⟨covers_cons.2 (Or.inr hk), h.hi_lt hk⟩
  · rintro ⟨hk, hlt⟩
    rcases covers_cons.1 hk with hin | hk
    · omega
    · exact hk

/-- No interval holds the key that follows the end of one. -/
theorem Canonical.not_covers_hi (h : Canonical l) (hi : i ∈ l) : ¬ Covers l i.hi := by
  induction l with
  | nil => cases hi
  | cons a l ih =>
    intro hcov
    rcases List.mem_cons.1 hi with rfl | hi
    · have hin := (h.covers_cons_of_le (Nat.le_refl _)).1 hcov
      omega
    · rcases covers_cons.1 hcov with hin | htail
      · have hgap := (List.pairwise_cons.1 h.2).1 i hi
        have hne := h.tail.1 i hi
        omega
      · exact ih h.tail hi htail

/-- The first interval ends no earlier than that of another list with the same keys. -/
theorem Canonical.hi_le (hl : Canonical (a :: l)) (hlo : a.lo = b.lo)
    (h : ∀ k, Covers (a :: l) k ↔ Covers (b :: m) k) : b.hi ≤ a.hi := by
  by_contra hlt
  have hne := hl.lo_lt_hi
  have hend : Covers (a :: l) a.hi := (h _).2 (covers_cons.2 (Or.inl (by omega)))
  have hin := (hl.covers_cons_of_le (Nat.le_refl _)).1 hend
  omega

/-- There is only one way to write a set of keys as intervals with gaps between them. -/
theorem Canonical.eq_of_covers_iff (hl : Canonical l) (hm : Canonical m)
    (h : ∀ k, Covers l k ↔ Covers m k) : l = m := by
  induction l generalizing m with
  | nil =>
    cases m with
    | nil => rfl
    | cons b m => exact absurd ((h _).2 hm.covers_lo) covers_nil
  | cons a l ih =>
    cases m with
    | nil => exact absurd ((h _).1 hl.covers_lo) covers_nil
    | cons b m =>
      have hlo : a.lo = b.lo := by
        have hab : a.lo ≤ b.lo := by
          rcases covers_cons.1 ((h _).2 hm.covers_lo) with hin | hfar
          · exact hin.1
          · exact hl.lo_le hfar
        have hba : b.lo ≤ a.lo := by
          rcases covers_cons.1 ((h _).1 hl.covers_lo) with hin | hfar
          · exact hin.1
          · exact hm.lo_le hfar
        exact Nat.le_antisymm hab hba
      have hhi : a.hi = b.hi :=
        Nat.le_antisymm (hm.hi_le hlo.symm fun k => (h k).symm) (hl.hi_le hlo h)
      obtain rfl : a = b := by
        cases a
        cases b
        simp_all
      have htail : ∀ k, Covers l k ↔ Covers m k := by
        intro k
        rw [hl.covers_tail, hm.covers_tail, h k]
      rw [ih hl.tail hm.tail htail]

theorem length_coalesceFrom_le (c : Interval) (l : List Interval) :
    (coalesceFrom c l).length ≤ l.length + 1 := by
  induction l generalizing c with
  | nil => simp [coalesceFrom]
  | cons a l ih =>
    simp only [coalesceFrom]
    split
    · have hgrown := ih ⟨c.lo, max c.hi a.hi⟩
      simp only [List.length_cons]
      omega
    · have hnext := ih a
      simp only [List.length_cons]
      omega

theorem length_coalesce_le (l : List Interval) : (coalesce l).length ≤ l.length := by
  cases l with
  | nil => simp [coalesce]
  | cons a l => exact length_coalesceFrom_le a l

theorem sort_perm (l : List Interval) : (sort l).Perm l := by
  unfold sort
  split
  · exact .refl l
  · exact List.mergeSort_perm l _

end Interval

namespace RowSet

open TickingTable.Interval

variable {r s : RowSet} {l : List Interval}

theorem ext_intervals (h : r.intervals = s.intervals) : r = s := by
  cases r
  cases s
  cases h
  rfl

theorem eq_iff_mem : r = s ↔ ∀ k, k ∈ r ↔ k ∈ s := by
  constructor
  · rintro rfl k
    rfl
  · intro h
    exact ext_intervals (r.canonical.eq_of_covers_iff s.canonical h)

/-- Intervals with gaps between them are kept as they are. -/
theorem intervals_ofIntervals (h : Canonical l) : (ofIntervals l).intervals = l :=
  (ofIntervals l).canonical.eq_of_covers_iff h fun _ => mem_ofIntervals

namespace Builder

variable {b : Builder}

theorem length_addInterval_le (b : Builder) (lo hi : Nat) :
    (b.addInterval lo hi).latestFirst.length ≤ b.latestFirst.length + 1 := by
  unfold addInterval
  split
  · split
    · simp
    · next hb =>
      split <;> simp [hb]
  · simp

theorem length_addAll_le (b : Builder) (l : List Interval) :
    (b.addAll l).latestFirst.length ≤ b.latestFirst.length + l.length := by
  induction l generalizing b with
  | nil => simp [addAll]
  | cons i l ih =>
    have hfirst := b.length_addInterval_le i.lo i.hi
    have hrest := ih (b.addInterval i.lo i.hi)
    simp only [addAll, List.foldl_cons, List.length_cons] at hrest ⊢
    omega

end Builder

theorem length_intervals_ofIntervals_le (l : List Interval) :
    (ofIntervals l).intervals.length ≤ l.length := by
  have hbuilt := length_coalesce_le (sort (Builder.empty.addAll l).latestFirst.reverse)
  have hadded := Builder.empty.length_addAll_le l
  rw [(sort_perm _).length_eq, List.length_reverse] at hbuilt
  have hempty : Builder.empty.latestFirst.length = 0 := rfl
  rw [hempty, Nat.zero_add] at hadded
  exact Nat.le_trans hbuilt hadded

end RowSet
end TickingTable
