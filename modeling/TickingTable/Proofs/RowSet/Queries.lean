import TickingTable.Proofs.RowSet.Bounded.Shift
import TickingTable.Proofs.RowSet.Composition

/-! What is read off the intervals of a row set agrees with its members. -/

namespace TickingTable

section

variable {l : List Nat} {k : Nat}

theorem head?_eq_some_iff_least (hl : l.Pairwise (· < ·)) :
    l.head? = some k ↔ k ∈ l ∧ ∀ j ∈ l, k ≤ j := by
  cases l with
  | nil => simp
  | cons a l =>
    have ha := (List.pairwise_cons.1 hl).1
    rw [List.head?_cons, Option.some.injEq]
    constructor
    · rintro rfl
      refine ⟨List.mem_cons_self, List.forall_mem_cons.2 ⟨Nat.le_refl _, ?_⟩⟩
      exact fun j hj => Nat.le_of_lt (ha j hj)
    · rintro ⟨hk, hleast⟩
      have hle := hleast a List.mem_cons_self
      rcases List.mem_cons.1 hk with rfl | hk
      · rfl
      · have := ha k hk
        omega

theorem getLast?_eq_some_iff_greatest (hl : l.Pairwise (· < ·)) :
    l.getLast? = some k ↔ k ∈ l ∧ ∀ j ∈ l, j ≤ k := by
  rcases List.eq_nil_or_concat l with rfl | ⟨l, a, rfl⟩
  · simp
  · rw [List.concat_eq_append] at hl ⊢
    have ha : ∀ j ∈ l, j < a := by
      intro j hj
      exact (List.pairwise_append.1 hl).2.2 j hj a (List.mem_singleton.2 rfl)
    rw [List.getLast?_concat, Option.some.injEq]
    constructor
    · rintro rfl
      refine ⟨by simp, fun j hj => ?_⟩
      rcases List.mem_append.1 hj with hj | hj
      · exact Nat.le_of_lt (ha j hj)
      · exact Nat.le_of_eq (List.mem_singleton.1 hj)
    · rintro ⟨hk, hgreatest⟩
      have hle := hgreatest a (by simp)
      rcases List.mem_append.1 hk with hk | hk
      · have := ha k hk
        omega
      · exact (List.mem_singleton.1 hk).symm

end

namespace RowSet

open TickingTable.Interval

variable {r s : RowSet} {k : Nat}

theorem first?_eq_head? (r : RowSet) : r.first? = r.toList.head? := by
  obtain ⟨l, hl⟩ := r
  cases l with
  | nil => rfl
  | cons i l =>
    have hne := hl.lo_lt_hi
    have hsize : i.size ≠ 0 := by
      unfold Interval.size
      omega
    simp [first?, toList, keys, List.head?_range', hsize]

theorem last?_eq_getLast? (r : RowSet) : r.last? = r.toList.getLast? := by
  obtain ⟨l, hl⟩ := r
  rcases List.eq_nil_or_concat l with rfl | ⟨l, i, rfl⟩
  · rfl
  · have hne := hl.1 i (by simp)
    have hsize : i.size ≠ 0 := by
      unfold Interval.size
      omega
    have hend : i.lo + i.size - 1 = i.hi - 1 := by
      unfold Interval.size
      omega
    simp [last?, toList, keys, List.getLast?_append, List.getLast?_range', hsize, hend]

theorem first?_eq_some_iff : r.first? = some k ↔ k ∈ r ∧ ∀ j, j ∈ r → k ≤ j := by
  rw [first?_eq_head?, head?_eq_some_iff_least r.pairwise_toList]
  simp only [mem_toList]

theorem last?_eq_some_iff : r.last? = some k ↔ k ∈ r ∧ ∀ j, j ∈ r → j ≤ k := by
  rw [last?_eq_getLast?, getLast?_eq_some_iff_greatest r.pairwise_toList]
  simp only [mem_toList]

/-- Bisection finds the index up to which `p` holds. -/
theorem partitionPoint_spec {p : Nat → Bool} {lo n : Nat} (hle : lo ≤ n)
    (hp : ∀ i j, i ≤ j → j < n → p j = true → p i = true) :
    partitionPoint p lo n ≤ n ∧ (∀ i, lo ≤ i → i < partitionPoint p lo n → p i = true) ∧
      ∀ i, partitionPoint p lo n ≤ i → i < n → p i = false := by
  fun_induction partitionPoint p lo n with
  | case1 n lo hlt mid hmid ih =>
    obtain ⟨hn, hbelow, habove⟩ := ih (by omega) hp
    refine ⟨hn, fun i hlo hi => ?_, habove⟩
    rcases Nat.lt_or_ge mid i with hgt | hge
    · exact hbelow i hgt hi
    · exact hp i mid hge (by omega) hmid
  | case2 n lo hlt mid hmid ih =>
    obtain ⟨hn, hbelow, habove⟩ := ih (by omega) fun i j hij hj => hp i j hij (by omega)
    refine ⟨by omega, hbelow, fun i hi hlt' => ?_⟩
    rcases Nat.lt_or_ge i mid with hgt | hge
    · exact habove i hi hgt
    · by_contra hno
      exact hmid (hp mid i hge hlt' (by simpa using hno))
  | case3 n lo hge =>
    exact ⟨hle, fun i hlo hi => by omega, fun i hi hlt => by omega⟩

/-- An interval that ends at or below the key has only such intervals in front of it. -/
theorem hi_le_of_le (r : RowSet) (k : Nat) {i j : Nat} (hij : i ≤ j)
    (h : (r.intervals[j]?.any fun b => decide (b.hi ≤ k)) = true) :
    (r.intervals[i]?.any fun b => decide (b.hi ≤ k)) = true := by
  obtain ⟨b, hb, hhi⟩ := (Option.any_eq_true _ _).1 h
  obtain ⟨hj, rfl⟩ := List.getElem?_eq_some_iff.1 hb
  rcases Nat.lt_or_eq_of_le hij with hlt | rfl
  · have hi : i < r.intervals.length := Nat.lt_trans hlt hj
    have hgap := List.pairwise_iff_getElem.1 r.canonical.2 i j hi hj hlt
    have hne := r.canonical.1 _ (List.getElem_mem hj)
    rw [List.getElem?_eq_getElem hi, Option.any_some]
    simp only [decide_eq_true_eq] at hhi ⊢
    omega
  · exact h

theorem contains_iff : r.contains k = true ↔ k ∈ r := by
  rw [contains]
  simp only [List.getElem?_toArray, List.size_toArray]
  obtain ⟨hn, hbelow, habove⟩ := partitionPoint_spec (Nat.zero_le r.intervals.length)
    fun i j hij _ => r.hi_le_of_le k hij
  generalize partitionPoint _ 0 _ = n at hn hbelow habove
  -- The interval at the point ends above the key, and all in front of it end at or below the key.
  constructor
  · intro h
    obtain ⟨b, hb, hlo⟩ := (Option.any_eq_true _ _).1 h
    have hlt := (List.getElem?_eq_some_iff.1 hb).1
    have hhi := habove n (Nat.le_refl n) hlt
    rw [hb, Option.any_some, decide_eq_false_iff_not] at hhi
    exact ⟨b, List.mem_of_getElem? hb, by simpa using hlo, Nat.lt_of_not_le hhi⟩
  · rintro ⟨b, hb, hlo, hhi⟩
    obtain ⟨j, hj⟩ := List.mem_iff_getElem?.1 hb
    have hnj : n ≤ j := by
      by_contra hlt
      have hend := hbelow j (Nat.zero_le j) (Nat.lt_of_not_le hlt)
      rw [hj, Option.any_some, decide_eq_true_eq] at hend
      omega
    rcases Nat.lt_or_eq_of_le hnj with hlt | rfl
    · obtain ⟨hjlt, rfl⟩ := List.getElem?_eq_some_iff.1 hj
      have hnlt : n < r.intervals.length := Nat.lt_trans hlt hjlt
      have hgap := List.pairwise_iff_getElem.1 r.canonical.2 n j hnlt hjlt hlt
      have hend := habove n (Nat.le_refl n) hnlt
      rw [List.getElem?_eq_getElem hnlt, Option.any_some, decide_eq_false_iff_not] at hend
      omega
    · rw [hj, Option.any_some, decide_eq_true_eq]
      exact hlo

theorem take_keys (i : Interval) (n : Nat) :
    i.keys.take n = List.range' i.lo (min n i.size) := by
  apply List.ext_getElem
  · simp [keys]
  · intro j hj hj'
    simp [keys]

theorem take_go (n : Nat) (l : List Interval) : take.go n l = (l.flatMap keys).take n := by
  induction l generalizing n with
  | nil => simp [take.go]
  | cons i l ih =>
    have hrest : n - min n i.size = n - i.keys.length := by
      rw [keys, List.length_range']
      omega
    rw [take.go]
    split
    · next hzero => rw [hzero, List.take_zero]
    · rw [ih, List.flatMap_cons, List.take_append, take_keys, hrest]

/-- Listing members up to a limit gives the front of the list of all. -/
theorem take_eq (r : RowSet) (n : Nat) : r.take n = r.toList.take n := take_go n r.intervals

theorem foldlM_sum {l : List Interval} {n : Nat}
    (h : n + (l.flatMap keys).length ≤ reservedKey) :
    l.foldlM (fun n i => Bounded.sum n i.size) n = .ok (n + (l.flatMap keys).length) := by
  induction l generalizing n with
  | nil => rfl
  | cons i l ih =>
    have hsize : i.keys.length = i.size := List.length_range'
    rw [List.flatMap_cons, List.length_append, hsize, ← Nat.add_assoc] at h ⊢
    rw [List.foldlM_cons, Bounded.sum_eq_ok.2 ⟨by omega, rfl⟩]
    exact ih h

/-- Sets of 64-bit keys have fewer members than there are such keys, so that the sums of the sizes
of their intervals fit. -/
theorem count_eq_ok (h : ∀ i ∈ r.intervals, i.hi ≤ reservedKey) :
    r.count = .ok r.toList.length := by
  have hsize : r.size ≤ reservedKey := by
    apply size_le_of_forall_lt
    rintro k ⟨i, hi, _, hhi⟩
    exact Nat.lt_of_lt_of_le hhi (h i hi)
  rw [← length_toList] at hsize
  have hfold := @foldlM_sum r.intervals 0 (by simpa [toList] using hsize)
  rwa [Nat.zero_add] at hfold

/-- What is read off the intervals agrees with the members: their list is strictly ascending, their
number is added up without leaving 64 bits, the first and the last are the least and the greatest
one, bisection finds just the members, and the scan of two sets finds out whether they share one. -/
theorem queries_tell_members (r s : RowSet) (hr : ∀ i ∈ r.intervals, i.hi ≤ reservedKey) :
    (∀ k, k ∈ r.toList ↔ k ∈ r) ∧ r.toList.Pairwise (· < ·) ∧
    (∀ n, r.take n = r.toList.take n) ∧
    (r.count = .ok r.toList.length ∧ r.size = r.toList.length) ∧
    (∀ k, r.first? = some k ↔ k ∈ r ∧ ∀ j, j ∈ r → k ≤ j) ∧
    (∀ k, r.last? = some k ↔ k ∈ r ∧ ∀ j, j ∈ r → j ≤ k) ∧
    (r.first? = none ↔ ∀ k, ¬ k ∈ r) ∧ (r.last? = none ↔ ∀ k, ¬ k ∈ r) ∧
    (∀ k, r.contains k = true ↔ k ∈ r.toList) ∧
    (r.intersects s = true ↔ ∃ k, k ∈ r ∧ k ∈ s) := by
  have hempty : r.toList = [] ↔ ∀ k, ¬ k ∈ r := by
    rw [List.eq_nil_iff_forall_not_mem]
    simp only [mem_toList]
  refine ⟨fun k => mem_toList, r.pairwise_toList, r.take_eq,
    ⟨count_eq_ok hr, (length_toList r).symm⟩, fun k => first?_eq_some_iff,
    fun k => last?_eq_some_iff, ?_, ?_, fun k => contains_iff.trans mem_toList.symm, intersects_iff⟩
  · rw [first?_eq_head?, List.head?_eq_none_iff, hempty]
  · rw [last?_eq_getLast?, List.getLast?_eq_none_iff, hempty]

/-- The set of all keys in front of the reserved one has as many members as a 64-bit number can
tell, and shares the last of them with another set. -/
theorem queries_tell_members_all :
    (∀ i ∈ (positions reservedKey).intervals, i.hi ≤ reservedKey) ∧
      (positions reservedKey).count = .ok reservedKey ∧
      (positions reservedKey).contains reservedKey = false ∧
      (positions reservedKey).intersects (ofKeys [reservedKey - 1]) = true := by
  have hfits : ∀ i ∈ (positions reservedKey).intervals, i.hi ≤ reservedKey := by
    have hall : (positions reservedKey).intervals = [⟨0, reservedKey⟩] := by decide +kernel
    simp [hall]
  obtain ⟨hmem, -, -, ⟨hcount, -⟩, -, -, -, -, hcontains, hmeets⟩ :=
    queries_tell_members (positions reservedKey) (ofKeys [reservedKey - 1]) hfits
  refine ⟨hfits, ?_, ?_, hmeets.2 ⟨reservedKey - 1, mem_positions.2 (by decide), by decide +kernel⟩⟩
  · rw [hcount, length_toList, size_positions]
  · rw [Bool.eq_false_iff, Ne, hcontains, hmem, mem_positions]
    exact Nat.lt_irrefl _

end RowSet
end TickingTable
