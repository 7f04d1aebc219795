import Mathlib.Algebra.Order.Ring.Nat
import Mathlib.Data.List.Sort
import TickingTable.RowSet.Basic

/-! Members of row sets, their ascending list and the rank of a key in it. -/

namespace TickingTable

/-- In a strictly ascending list as many numbers are below an element as stand in front of it. -/
theorem countP_lt_getElem {l : List Nat} (hl : l.Pairwise (· < ·)) {n : Nat} (hn : n < l.length) :
    l.countP (· < l[n]) = n := by
  induction l generalizing n with
  | nil => simp at hn
  | cons a l ih =>
    have ha := (List.pairwise_cons.1 hl).1
    cases n with
    | zero =>
      simp only [List.getElem_cons_zero, List.countP_eq_zero, List.mem_cons, decide_eq_true_eq]
      rintro b (rfl | hb)
      · exact Nat.lt_irrefl _
      · exact Nat.not_lt.2 (Nat.le_of_lt (ha b hb))
    | succ n =>
      have hn' : n < l.length := by simpa using hn
      have hlt := ha _ (List.getElem_mem hn')
      simp [ih (List.pairwise_cons.1 hl).2 hn', hlt]

/-- A strictly ascending list of numbers from `lo` on below `hi` is no longer than their range. -/
theorem length_le_of_ascending {l : List Nat} {lo hi : Nat} (hl : l.Pairwise (· < ·))
    (h : ∀ k ∈ l, lo ≤ k ∧ k < hi) : l.length ≤ hi - lo := by
  induction l generalizing lo with
  | nil => simp
  | cons a l ih =>
    obtain ⟨ha, hl⟩ := List.pairwise_cons.1 hl
    have hb := h a List.mem_cons_self
    have hlen : l.length ≤ hi - (a + 1) := by
      apply ih hl
      intro k hk
      exact ⟨ha k hk, (h k (List.mem_cons_of_mem _ hk)).2⟩
    simp only [List.length_cons]
    omega

namespace Interval

variable {l : List Interval} {i c : Interval} {k : Nat}

theorem mem_keys : k ∈ i.keys ↔ i.lo ≤ k ∧ k < i.hi := by
  simp only [keys, size, List.mem_range'_1]
  omega

/-- Some interval of the list holds the key. -/
def Covers (l : List Interval) (k : Nat) : Prop := ∃ i ∈ l, i.lo ≤ k ∧ k < i.hi

@[simp] theorem covers_nil : ¬ Covers [] k := by simp [Covers]

@[simp] theorem covers_cons :
    Covers (i :: l) k ↔ (i.lo ≤ k ∧ k < i.hi) ∨ Covers l k := by simp [Covers]

@[simp] theorem covers_append {m : List Interval} :
    Covers (l ++ m) k ↔ Covers l k ∨ Covers m k := by
  simp only [Covers, List.mem_append, or_and_right, exists_or]

theorem mem_flatMap_keys : k ∈ l.flatMap keys ↔ Covers l k := by
  simp only [List.mem_flatMap, mem_keys, Covers]

theorem covers_of_forall {m : List Interval} (h : ∀ i, i ∈ l ↔ i ∈ m) :
    Covers l k ↔ Covers m k := by simp only [Covers, h]

theorem covers_coalesceFrom (hc : ∀ i ∈ l, c.lo ≤ i.lo) (hl : l.Pairwise fun a b => a.lo ≤ b.lo) :
    Covers (coalesceFrom c l) k ↔ Covers (c :: l) k := by
  induction l generalizing c with
  | nil => rfl
  | cons a l ih =>
    obtain ⟨ha, hl⟩ := List.pairwise_cons.1 hl
    have hca := hc a List.mem_cons_self
    simp only [coalesceFrom]
    split
    · next htouch =>
      rw [ih (c := ⟨c.lo, max c.hi a.hi⟩) (fun i hi => Nat.le_trans hca (ha i hi)) hl]
      simp only [covers_cons, ← or_assoc]
      apply or_congr_left
      omega
    · simp only [covers_cons, ih ha hl]

theorem covers_coalesce (hl : l.Pairwise fun a b => a.lo ≤ b.lo) :
    Covers (coalesce l) k ↔ Covers l k := by
  cases l with
  | nil => rfl
  | cons a l =>
    obtain ⟨ha, hl⟩ := List.pairwise_cons.1 hl
    exact covers_coalesceFrom ha hl

/-- Disjoint intervals in ascending order list their keys in ascending order. -/
theorem pairwise_flatMap_keys (hl : l.Pairwise fun a b => a.hi ≤ b.lo) :
    (l.flatMap keys).Pairwise (· < ·) := by
  rw [List.pairwise_flatMap]
  refine ⟨fun i _ => List.pairwise_lt_range', hl.imp ?_⟩
  intro a b hab x hx y hy
  exact Nat.lt_of_lt_of_le (mem_keys.1 hx).2 (Nat.le_trans hab (mem_keys.1 hy).1)

theorem length_flatMap_keys (l : List Interval) :
    (l.flatMap keys).length = l.foldr (fun i n => i.size + n) 0 := by
  induction l with
  | nil => rfl
  | cons i l ih => simp [List.flatMap_cons, ih, keys]

end Interval

namespace RowSet

open TickingTable.Interval

variable {r s : RowSet} {k j : Nat}

theorem mem_iff_covers : k ∈ r ↔ Covers r.intervals k := Iff.rfl

@[simp] theorem mem_toList : k ∈ r.toList ↔ k ∈ r := mem_flatMap_keys

theorem pairwise_toList (r : RowSet) : r.toList.Pairwise (· < ·) :=
  pairwise_flatMap_keys (r.canonical.2.imp fun h => Nat.le_of_lt h)

theorem nodup_toList (r : RowSet) : r.toList.Nodup := r.pairwise_toList.imp fun h => Nat.ne_of_lt h

@[simp] theorem length_toList (r : RowSet) : r.toList.length = r.size := length_flatMap_keys _

instance (k : Nat) (r : RowSet) : Decidable (k ∈ r) := decidable_of_iff _ mem_toList

/-- An ascending list of the members is the list of the members. -/
theorem toList_eq_of_mem_iff {l : List Nat} (hl : l.Pairwise (· < ·)) (h : ∀ k, k ∈ r ↔ k ∈ l) :
    r.toList = l :=
  r.pairwise_toList.eq_of_mem_iff hl fun k => mem_toList.trans (h k)

theorem isEmpty_iff : r.isEmpty = true ↔ r.toList = [] := by
  rw [isEmpty, List.isEmpty_iff, toList, List.flatMap_eq_nil_iff]
  constructor
  · intro h
    simp [h]
  · intro h
    apply List.eq_nil_iff_forall_not_mem.2
    intro i hi
    have hlt := r.canonical.1 i hi
    have hsize := h i hi
    simp only [keys, Interval.size, List.range'_eq_nil_iff] at hsize
    omega

theorem isEmpty_iff_size : r.isEmpty = true ↔ r.size = 0 := by
  rw [isEmpty_iff, ← length_toList, List.length_eq_zero_iff]

/-- The number of members below a key. -/
def rank (r : RowSet) (k : Nat) : Nat := r.toList.countP (· < k)

theorem rank_eq_of_getElem? {n : Nat} (h : r.toList[n]? = some k) : r.rank k = n := by
  obtain ⟨hn, rfl⟩ := List.getElem?_eq_some_iff.1 h
  exact countP_lt_getElem r.pairwise_toList hn

theorem getElem?_rank (hk : k ∈ r) : r.toList[r.rank k]? = some k := by
  obtain ⟨n, hn⟩ := List.getElem?_of_mem (mem_toList.2 hk)
  rw [rank_eq_of_getElem? hn, hn]

theorem rank_lt_size (hk : k ∈ r) : r.rank k < r.size := by
  have h := (List.getElem?_eq_some_iff.1 (getElem?_rank hk)).1
  rwa [length_toList] at h

theorem rank_lt_rank_iff (hk : k ∈ r) (hj : j ∈ r) : r.rank k < r.rank j ↔ k < j := by
  obtain ⟨hr, hk'⟩ := List.getElem?_eq_some_iff.1 (getElem?_rank hk)
  obtain ⟨hs, hj'⟩ := List.getElem?_eq_some_iff.1 (getElem?_rank hj)
  constructor
  · intro h
    have := List.pairwise_iff_getElem.1 r.pairwise_toList _ _ hr hs h
    rwa [hk', hj'] at this
  · intro h
    by_contra hn
    rcases Nat.lt_or_eq_of_le (Nat.not_lt.1 hn) with hlt | he
    · have := List.pairwise_iff_getElem.1 r.pairwise_toList _ _ hs hr hlt
      rw [hk', hj'] at this
      omega
    · simp only [he] at hj'
      omega

theorem rank_inj (hk : k ∈ r) (hj : j ∈ r) (h : r.rank k = r.rank j) : k = j := by
  have h₁ := rank_lt_rank_iff hk hj
  have h₂ := rank_lt_rank_iff hj hk
  omega

theorem map_rank_toList (r : RowSet) : r.toList.map r.rank = List.range r.size := by
  apply List.ext_getElem (by simp)
  intro n hn _
  have hn' : n < r.toList.length := by simpa using hn
  simp only [List.getElem_map, List.getElem_range]
  exact rank_eq_of_getElem? (List.getElem?_eq_getElem hn')

namespace Builder

variable {b : Builder}

/-- Some interval of the builder holds the key. -/
def Holds (b : Builder) (k : Nat) : Prop := Covers b.latestFirst k

theorem holds_addInterval {lo hi : Nat} :
    (b.addInterval lo hi).Holds k ↔ b.Holds k ∨ (lo ≤ k ∧ k < hi) := by
  unfold addInterval Holds
  split
  · split
    · next hb => simp [hb]
    · next last earlier hb =>
      split
      · simp only [hb, covers_cons]
        rw [or_right_comm]
        apply or_congr_left
        omega
      · simp only [hb, covers_cons]
        exact or_comm
  · simp only [iff_self_or]
    omega

theorem holds_addAll {l : List Interval} : (b.addAll l).Holds k ↔ b.Holds k ∨ Covers l k := by
  induction l generalizing b with
  | nil => simp [addAll]
  | cons i l ih =>
    have h := ih (b := b.addInterval i.lo i.hi)
    simp only [addAll, List.foldl_cons] at h ⊢
    rw [h, holds_addInterval, covers_cons, or_assoc]

theorem mem_build : k ∈ b.build ↔ b.Holds k := by
  rw [mem_iff_covers, build, covers_coalesce (pairwise_sort _), Holds]
  apply covers_of_forall
  simp [mem_sort]

end Builder

@[simp] theorem mem_ofIntervals {l : List Interval} : k ∈ ofIntervals l ↔ Covers l k := by
  rw [ofIntervals, Builder.mem_build, Builder.holds_addAll]
  simp [Builder.Holds, Builder.empty]

/-- The members of disjoint ascending intervals are their keys one after the other. -/
theorem toList_ofIntervals {l : List Interval} (hl : (l.flatMap keys).Pairwise (· < ·)) :
    (ofIntervals l).toList = l.flatMap keys :=
  toList_eq_of_mem_iff hl fun _ => mem_ofIntervals.trans mem_flatMap_keys.symm

@[simp] theorem mem_positions {n : Nat} : k ∈ positions n ↔ k < n := by
  simp [positions, ofInterval]

theorem toList_positions (n : Nat) : (positions n).toList = List.range n := by
  apply toList_eq_of_mem_iff List.pairwise_lt_range
  simp

theorem size_positions (n : Nat) : (positions n).size = n := by
  rw [← length_toList, toList_positions, List.length_range]

/-- A position has itself as its rank. -/
theorem rank_positions {n p : Nat} (hp : p < n) : (positions n).rank p = p := by
  apply rank_eq_of_getElem?
  simp [toList_positions, hp]

theorem not_mem_empty : ¬ k ∈ empty := covers_nil

end RowSet
end TickingTable
