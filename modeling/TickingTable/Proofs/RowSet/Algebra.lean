import TickingTable.Proofs.RowSet.Members
import TickingTable.RowSet.Algebra

/-! Union, difference and intersection act on the members, and positions are ranks. -/

namespace TickingTable
namespace Interval

variable {l m own subset cuts : List Interval} {i c : Interval} {k lo hi n : Nat}

theorem Canonical.tail (h : Canonical (i :: l)) : Canonical l :=
  ⟨fun j hj => h.1 j (List.mem_cons_of_mem _ hj), (List.pairwise_cons.1 h.2).2⟩

theorem Canonical.lo_lt_hi (h : Canonical (i :: l)) : i.lo < i.hi := h.1 i List.mem_cons_self

theorem Canonical.dropWhile (h : Canonical l) (p : Interval → Bool) :
    Canonical (l.dropWhile p) :=
  ⟨fun j hj => h.1 j ((List.dropWhile_sublist p).subset hj), h.2.sublist (List.dropWhile_sublist p)⟩

/-- A gap separates the first interval from the keys of the later ones. -/
theorem Canonical.hi_lt (h : Canonical (i :: l)) (hk : Covers l k) : i.hi < k := by
  obtain ⟨j, hj, hlo, _⟩ := hk
  have := (List.pairwise_cons.1 h.2).1 j hj
  omega

theorem Canonical.not_covers_tail (h : Canonical (i :: l)) (hk : k ≤ i.hi) : ¬ Covers l k :=
  fun hcov => Nat.not_lt.2 hk (h.hi_lt hcov)

theorem Canonical.lo_le (h : Canonical (i :: l)) (hk : Covers l k) : i.lo ≤ k :=
  Nat.le_of_lt (Nat.lt_trans h.lo_lt_hi (h.hi_lt hk))

theorem covers_dropWhile (hk : lo ≤ k) :
    Covers (l.dropWhile fun c => decide (c.hi ≤ lo)) k ↔ Covers l k := by
  induction l with
  | nil => rfl
  | cons c l ih =>
    by_cases hc : c.hi ≤ lo
    · simp only [List.dropWhile_cons, hc, decide_true, if_true, ih, covers_cons]
      constructor
      · exact Or.inr
      · rintro (h | h)
        · omega
        · exact h
    · simp [hc]

theorem covers_without (hc : Canonical cuts) :
    Covers (without lo hi cuts) k ↔ (lo ≤ k ∧ k < hi) ∧ ¬ Covers cuts k := by
  induction cuts generalizing lo with
  | nil =>
    simp only [without]
    split <;> simp
    omega
  | cons cut cuts ih =>
    have hne := hc.lo_lt_hi
    have hfar : Covers cuts k → cut.hi < k := hc.hi_lt
    simp only [without]
    split
    · split
      · split <;> simp only [covers_cons, ih hc.tail] <;> grind
      · simp only [covers_cons, covers_nil]
        grind
    · simp only [covers_nil, false_iff]
      omega

theorem covers_difference (hl : Canonical l) (hc : Canonical cuts) :
    Covers (difference l cuts) k ↔ Covers l k ∧ ¬ Covers cuts k := by
  induction l generalizing cuts with
  | nil => simp [difference]
  | cons i l ih =>
    have hahead := hc.dropWhile fun c => decide (c.hi ≤ i.lo)
    simp only [difference, covers_append, covers_without hahead, ih hl.tail hahead, covers_cons,
      or_and_right]
    apply or_congr
    · apply and_congr_right
      intro hk
      rw [covers_dropWhile hk.1]
    · apply and_congr_right
      intro hk
      rw [covers_dropWhile (hl.lo_le hk)]

theorem overlap_iff (hl : Canonical l) (hm : Canonical m) :
    overlap l m = true ↔ ∃ k, Covers l k ∧ Covers m k := by
  fun_induction overlap l m with
  | case1 a l b m hmeet =>
    simp only [covers_cons, true_iff]
    exact ⟨max a.lo b.lo, by omega, by omega⟩
  | case2 a l b m hapart hends ih =>
    rw [ih hl.tail hm]
    constructor
    · rintro ⟨k, hk, hk'⟩
      exact ⟨k, covers_cons.2 (Or.inr hk), hk'⟩
    · rintro ⟨k, hk, hk'⟩
      refine ⟨k, (covers_cons.1 hk).resolve_left ?_, hk'⟩
      intro ha
      rcases covers_cons.1 hk' with hb | hb
      · omega
      · have := hm.hi_lt hb
        omega
  | case3 a l b m hapart hends ih =>
    rw [ih hl hm.tail]
    constructor
    · rintro ⟨k, hk, hk'⟩
      exact ⟨k, hk, covers_cons.2 (Or.inr hk')⟩
    · rintro ⟨k, hk, hk'⟩
      refine ⟨k, hk, (covers_cons.1 hk').resolve_left ?_⟩
      intro hb
      rcases covers_cons.1 hk with ha | ha
      · omega
      · have := hl.hi_lt ha
        omega
  | case4 l m hnil =>
    simp only [Bool.false_eq_true, false_iff, not_exists, not_and]
    intro k hk
    cases l with
    | nil => exact absurd hk covers_nil
    | cons a l =>
      cases m with
      | nil => exact covers_nil
      | cons b m => exact (hnil a l b m rfl rfl).elim

/-- The number of keys of the intervals below a key. -/
def below (l : List Interval) (k : Nat) : Nat := (l.flatMap keys).countP (· < k)

theorem below_cons_of_le (h : i.hi ≤ k) : below (i :: l) k = i.size + below l k := by
  have hall : i.keys.countP (· < k) = i.keys.length := by
    rw [List.countP_eq_length]
    intro j hj
    have := (mem_keys.1 hj).2
    simp only [decide_eq_true_eq]
    omega
  simp only [below, List.flatMap_cons, List.countP_append, hall]
  simp [keys]

theorem below_cons_of_mem (h : Canonical (i :: l)) (hlo : i.lo ≤ k) (hhi : k < i.hi) :
    below (i :: l) k = k - i.lo := by
  have hsize : k - i.lo < i.keys.length := by
    simp only [keys, size, List.length_range']
    omega
  have hget : ((i :: l).flatMap keys)[k - i.lo]? = some k := by
    rw [List.flatMap_cons, List.getElem?_append_left hsize, List.getElem?_eq_getElem hsize]
    simp only [keys, List.getElem_range', Option.some.injEq]
    omega
  obtain ⟨hn, hk⟩ := List.getElem?_eq_some_iff.1 hget
  have := countP_lt_getElem (pairwise_flatMap_keys (h.2.imp fun h => Nat.le_of_lt h)) hn
  rwa [hk] at this

/-- Skipping changes neither the later keys nor their ranks. -/
theorem skipBelow_spec {key n' : Nat} {own' : List Interval} (hown : Canonical own)
    (h : skipBelow key n own = (n', own')) :
    Canonical own' ∧ (∀ o ∈ own'.head?, key < o.hi) ∧
      ∀ k, key ≤ k → (Covers own' k ↔ Covers own k) ∧ n' + below own' k = n + below own k := by
  induction own generalizing n with
  | nil =>
    obtain ⟨rfl, rfl⟩ := Prod.mk.inj h
    exact ⟨hown, by simp, fun k _ => ⟨Iff.rfl, rfl⟩⟩
  | cons o own ih =>
    simp only [skipBelow] at h
    split at h
    · next hskip =>
      obtain ⟨hc, hhead, hk⟩ := ih hown.tail h
      refine ⟨hc, hhead, fun k hle => ⟨?_, ?_⟩⟩
      · rw [(hk k hle).1, covers_cons]
        constructor
        · exact Or.inr
        · rintro (hko | hko)
          · omega
          · exact hko
      · rw [(hk k hle).2, below_cons_of_le (Nat.le_trans hskip hle)]
        omega
    · next hstay =>
      obtain ⟨rfl, rfl⟩ := Prod.mk.inj h
      exact ⟨hown, by simpa using hstay, fun k _ => ⟨Iff.rfl, rfl⟩⟩

theorem ranks_eq_some {ranked : List Interval} (hown : Canonical own) (hsub : Canonical subset)
    (h : ranks n own subset = some ranked) :
    (∀ k, Covers subset k → Covers own k) ∧
      ranked.flatMap keys = (subset.flatMap keys).map fun k => n + below own k := by
  induction subset generalizing n own ranked with
  | nil => simp_all [ranks]
  | cons i subset ih =>
    have hfar : ∀ k, Covers subset k → i.lo ≤ k := fun _ => hsub.lo_le
    unfold ranks at h
    split at h
    · simp at h
    · next n' o rest hskip =>
      obtain ⟨hown', hend, hsame⟩ := skipBelow_spec hown hskip
      split at h
      · simp at h
      · next hin =>
        obtain ⟨tail, htail, rfl⟩ := Option.map_eq_some_iff.1 h
        obtain ⟨hcov, hkeys⟩ := ih hown' hsub.tail htail
        constructor
        · intro k hk
          rcases covers_cons.1 hk with hki | hk
          · exact (hsame k hki.1).1.1 (covers_cons.2 (Or.inl (by omega)))
          · exact (hsame k (hfar k hk)).1.1 (hcov k hk)
        · rw [List.flatMap_cons, List.flatMap_cons, List.map_append, hkeys]
          congr 1
          · apply List.ext_getElem
            · simp only [keys, size, List.length_map, List.length_range']
              omega
            · intro j hj hj'
              have hj : j < i.hi - i.lo := by simpa [keys, size] using hj'
              have hb := below_cons_of_mem hown' (k := i.lo + j) (by omega) (by omega)
              have := (hsame (i.lo + j) (by omega)).2
              simp only [keys, List.getElem_map, List.getElem_range', Nat.one_mul]
              omega
          · apply List.map_congr_left
            intro k hk
            exact (hsame k (hfar k (mem_flatMap_keys.1 hk))).2

theorem ranks_eq_none (hown : Canonical own) (hsub : Canonical subset)
    (h : ranks n own subset = none) : ∃ k, Covers subset k ∧ ¬ Covers own k := by
  induction subset generalizing n own with
  | nil => simp [ranks] at h
  | cons i subset ih =>
    have hne := hsub.lo_lt_hi
    unfold ranks at h
    split at h
    · next hskip =>
      obtain ⟨_, _, hsame⟩ := skipBelow_spec hown hskip
      refine ⟨i.lo, covers_cons.2 (Or.inl (by omega)), ?_⟩
      rw [← (hsame i.lo (Nat.le_refl _)).1]
      exact covers_nil
    · next n' o rest hskip =>
      obtain ⟨hown', hend, hsame⟩ := skipBelow_spec hown hskip
      have hlt : i.lo < o.hi := hend o rfl
      split at h
      · next hout =>
        by_cases hlo : i.lo < o.lo
        · refine ⟨i.lo, covers_cons.2 (Or.inl (by omega)), ?_⟩
          rw [← (hsame i.lo (Nat.le_refl _)).1, covers_cons, not_or]
          exact ⟨by omega, hown'.not_covers_tail (by omega)⟩
        · refine ⟨o.hi, covers_cons.2 (Or.inl (by omega)), ?_⟩
          rw [← (hsame o.hi (by omega)).1, covers_cons, not_or]
          exact ⟨by omega, hown'.not_covers_tail (Nat.le_refl _)⟩
      · obtain ⟨k, hk, hnot⟩ := ih hown' hsub.tail (Option.map_eq_none_iff.1 h)
        refine ⟨k, covers_cons.2 (Or.inr hk), ?_⟩
        rwa [← (hsame k (hsub.lo_le hk)).1]

end Interval

namespace RowSet

open TickingTable.Interval

variable {r s p : RowSet} {k : Nat}

@[simp] theorem mem_union : k ∈ r.union s ↔ k ∈ r ∨ k ∈ s := by
  rw [union, mem_ofIntervals, covers_append]
  rfl

@[simp] theorem mem_difference : k ∈ r.difference s ↔ k ∈ r ∧ ¬ k ∈ s := by
  rw [difference, mem_ofIntervals, covers_difference r.canonical s.canonical]
  rfl

theorem intersects_iff : r.intersects s = true ↔ ∃ k, k ∈ r ∧ k ∈ s :=
  overlap_iff r.canonical s.canonical

theorem toList_difference (r s : RowSet) :
    (r.difference s).toList = r.toList.filter fun k => decide (¬ k ∈ s) := by
  apply toList_eq_of_mem_iff (r.pairwise_toList.filter _)
  simp

theorem toList_union_perm (h : ∀ k, k ∈ r → ¬ k ∈ s) :
    (r.union s).toList.Perm (r.toList ++ s.toList) := by
  rw [List.perm_ext_iff_of_nodup (nodup_toList _)]
  · simp
  · rw [List.nodup_append']
    exact ⟨r.nodup_toList, s.nodup_toList, fun k hr hs => h k (mem_toList.1 hr) (mem_toList.1 hs)⟩

theorem size_union (h : ∀ k, k ∈ r → ¬ k ∈ s) : (r.union s).size = r.size + s.size := by
  have := (toList_union_perm h).length_eq
  simpa using this

theorem rank_union (h : ∀ k, k ∈ r → ¬ k ∈ s) (k : Nat) :
    (r.union s).rank k = r.rank k + s.rank k := by
  rw [rank, (toList_union_perm h).countP_eq, List.countP_append]
  rfl

/-- A set is put together from a subset and the rest. -/
theorem toList_union_difference (h : ∀ k, k ∈ s → k ∈ r) :
    ((r.difference s).union s).toList = r.toList := by
  apply toList_eq_of_mem_iff r.pairwise_toList
  intro k
  by_cases hs : k ∈ s
  · simp [hs, h k hs]
  · simp [hs]

theorem size_difference (h : ∀ k, k ∈ s → k ∈ r) : (r.difference s).size + s.size = r.size := by
  rw [← size_union fun k hk => (mem_difference.1 hk).2, ← length_toList, toList_union_difference h,
    length_toList]

theorem rank_difference (h : ∀ k, k ∈ s → k ∈ r) (k : Nat) :
    (r.difference s).rank k + s.rank k = r.rank k := by
  rw [← rank_union (fun k hk => (mem_difference.1 hk).2) k, rank, toList_union_difference h, rank]

theorem pairwise_map_rank (h : ∀ k, k ∈ s → k ∈ r) : (s.toList.map r.rank).Pairwise (· < ·) := by
  rw [List.pairwise_map]
  apply s.pairwise_toList.imp_of_mem
  intro a b ha hb hab
  exact (rank_lt_rank_iff (h a (mem_toList.1 ha)) (h b (mem_toList.1 hb))).2 hab

/-- The positions of a subset are the ranks of its members. -/
theorem positionsOf?_eq_some (h : r.positionsOf? s = some p) :
    (∀ k, k ∈ s → k ∈ r) ∧ p.toList = s.toList.map r.rank := by
  obtain ⟨l, hl, rfl⟩ := Option.map_eq_some_iff.1 h
  obtain ⟨hsub, hkeys⟩ := ranks_eq_some r.canonical s.canonical hl
  have hkeys : l.flatMap keys = s.toList.map r.rank := by
    rw [hkeys]
    simp only [Nat.zero_add]
    rfl
  refine ⟨hsub, ?_⟩
  rw [toList_ofIntervals, hkeys]
  rw [hkeys]
  exact pairwise_map_rank hsub

theorem positionsOf?_eq_none : r.positionsOf? s = none ↔ ¬ ∀ k, k ∈ s → k ∈ r := by
  constructor
  · intro h hsub
    obtain ⟨k, hs, hr⟩ := ranks_eq_none r.canonical s.canonical (Option.map_eq_none_iff.1 h)
    exact hr (hsub k hs)
  · intro hnot
    cases hp : r.positionsOf? s with
    | none => rfl
    | some p => exact absurd (positionsOf?_eq_some hp).1 hnot

theorem positionsOf?_of_subset (h : ∀ k, k ∈ s → k ∈ r) : ∃ p, r.positionsOf? s = some p :=
  Option.ne_none_iff_exists'.1 fun hp => positionsOf?_eq_none.1 hp h

theorem size_positionsOf? (h : r.positionsOf? s = some p) : p.size = s.size := by
  rw [← length_toList, (positionsOf?_eq_some h).2, List.length_map, length_toList]

theorem rank_mem_positionsOf? (h : r.positionsOf? s = some p) (hk : k ∈ r) :
    r.rank k ∈ p ↔ k ∈ s := by
  obtain ⟨hsub, hp⟩ := positionsOf?_eq_some h
  rw [← mem_toList, hp, List.mem_map]
  constructor
  · rintro ⟨j, hj, he⟩
    have hj := mem_toList.1 hj
    rwa [← rank_inj (hsub j hj) hk he]
  · intro hs
    exact ⟨k, mem_toList.2 hs, rfl⟩

/-- A position has the rank of its key. -/
theorem rank_positionsOf? (h : r.positionsOf? s = some p) (hk : k ∈ r) :
    p.rank (r.rank k) = s.rank k := by
  obtain ⟨hsub, hp⟩ := positionsOf?_eq_some h
  rw [rank, hp, List.countP_map]
  apply List.countP_congr
  intro j hj
  simpa using rank_lt_rank_iff (hsub j (mem_toList.1 hj)) hk

theorem lt_size_of_mem_positionsOf? {n : Nat} (h : r.positionsOf? s = some p) (hn : n ∈ p) :
    n < r.size := by
  obtain ⟨hsub, hp⟩ := positionsOf?_eq_some h
  rw [← mem_toList, hp, List.mem_map] at hn
  obtain ⟨k, hk, rfl⟩ := hn
  exact rank_lt_size (hsub k (mem_toList.1 hk))

end RowSet
end TickingTable
