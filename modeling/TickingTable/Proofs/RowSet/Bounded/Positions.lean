import TickingTable.Proofs.RowSet.Bounded.Shift

/-! Positions in 64-bit sums: they are the ranks, unless a rank and a key add up too high, and shifts
do not change them. -/

namespace TickingTable

namespace Interval

variable {l m own : List Interval} {i j : Interval} {key k n : Nat}

/-- What is skipped stands in front, ends at or below the key and is counted. -/
theorem skipBelow_split (key n : Nat) (own : List Interval) :
    ∃ skipped, own = skipped ++ (skipBelow key n own).2 ∧ (∀ i ∈ skipped, i.hi ≤ key) ∧
      (skipBelow key n own).1 = n + (skipped.flatMap keys).length := by
  induction own generalizing n with
  | nil => exact ⟨[], rfl, by simp, rfl⟩
  | cons i own ih =>
    unfold skipBelow
    split
    · next hskip =>
      obtain ⟨skipped, hown, hends, hrank⟩ := ih (n + i.size)
      refine ⟨i :: skipped, ?_, List.forall_mem_cons.2 ⟨hskip, hends⟩, ?_⟩
      · rw [List.cons_append, ← hown]
      · rw [hrank, List.flatMap_cons, List.length_append, keys, List.length_range', Nat.add_assoc]
    · exact ⟨[], rfl, by simp, rfl⟩

theorem Canonical.lo_le_of_cons (h : Canonical (i :: l)) (hk : Covers (i :: l) k) : i.lo ≤ k := by
  rcases covers_cons.1 hk with hin | hk
  · exact hin.1
  · exact h.lo_le hk

theorem Canonical.right (h : Canonical (l ++ m)) : Canonical m :=
  ⟨fun i hi => h.1 i (List.mem_append_right _ hi), (List.pairwise_append.1 h.2).2.1⟩

/-- Up to the start of a later interval all keys of the earlier ones count. -/
theorem Canonical.below_append (h : Canonical (l ++ m)) (hi : i ∈ m) :
    below (l ++ m) i.lo = (l.flatMap keys).length + below m i.lo := by
  have hall : (l.flatMap keys).countP (· < i.lo) = (l.flatMap keys).length := by
    rw [List.countP_eq_length]
    intro k hk
    obtain ⟨j, hj, hk⟩ := List.mem_flatMap.1 hk
    have hgap := (List.pairwise_append.1 h.2).2.2 j hj i hi
    have hlt := (mem_keys.1 hk).2
    simp only [decide_eq_true_eq]
    omega
  rw [below, List.flatMap_append, List.countP_append, hall]
  rfl

/-- What is left after skipping holds the keys from the given one on, at the same ranks. -/
theorem Canonical.skipBelow_rest {n' : Nat} {rest : List Interval} (h : Canonical own)
    (hskip : skipBelow key n own = (n', rest)) :
    Canonical rest ∧ n' + (rest.flatMap keys).length = n + (own.flatMap keys).length ∧
      (∀ o ∈ own, key < o.hi → o ∈ rest) ∧
      ∀ o ∈ rest, o ∈ own ∧ n' + below rest o.lo = n + below own o.lo := by
  obtain ⟨skipped, hown, hends, hrank⟩ := skipBelow_split key n own
  rw [hskip] at hown hrank
  dsimp only at hown hrank
  subst hown hrank
  refine ⟨h.right, ?_, fun o ho hlt => ?_, fun o ho => ⟨List.mem_append_right _ ho, ?_⟩⟩
  · rw [List.flatMap_append, List.length_append, Nat.add_assoc]
  · rcases List.mem_append.1 ho with ho | ho
    · have := hends o ho
      omega
    · exact ho
  · rw [h.below_append ho, Nat.add_assoc]

end Interval

namespace Bounded

open TickingTable.Interval

variable {own subset l : List Interval} {i o : Interval} {key n k : Nat}

theorem skipBelow_eq (h : n + (own.flatMap keys).length ≤ reservedKey) :
    skipBelow key n own = .ok (Interval.skipBelow key n own) := by
  induction own generalizing n with
  | nil => rfl
  | cons i own ih =>
    have hsize : i.keys.length = i.size := by rw [keys, List.length_range']
    rw [List.flatMap_cons, List.length_append, hsize, ← Nat.add_assoc] at h
    simp only [skipBelow, Interval.skipBelow]
    split
    · rw [sum_eq_ok.2 ⟨by omega, rfl⟩]
      exact ih h
    · rfl

/-- The keys in front of the interval that holds a key of the second list fit together with it. -/
def Fits (n : Nat) (own subset : List Interval) : Prop :=
  ∀ k, Covers subset k → ∀ o ∈ own, o.lo ≤ k → k < o.hi → n + below own o.lo + k < reservedKey

theorem fits_rest {n' : Nat} {rest : List Interval} (hown : Canonical own)
    (hskip : Interval.skipBelow key n own = (n', rest)) (hkey : ∀ k, Covers subset k → key ≤ k) :
    Fits n own subset ↔ Fits n' rest subset := by
  obtain ⟨_, _, hkept, hsame⟩ := hown.skipBelow_rest hskip
  constructor
  · intro h k hk o ho hlo hhi
    rw [(hsame o ho).2]
    exact h k hk o (hsame o ho).1 hlo hhi
  · intro h k hk o ho hlo hhi
    have := hkey k hk
    have ho := hkept o ho (by omega)
    rw [← (hsame o ho).2]
    exact h k hk o ho hlo hhi

/-- An interval within the first of the others fits if its end does. -/
theorem fits_cons (hown : Canonical (o :: own)) (hne : i.lo < i.hi) (hlo : o.lo ≤ i.lo)
    (hhi : i.hi ≤ o.hi) : Fits n (o :: own) (i :: subset) ↔
      n + i.hi ≤ reservedKey ∧ Fits n (o :: own) subset := by
  have hstart : below (o :: own) o.lo = 0 := by
    rw [below_cons_of_mem hown (Nat.le_refl _) hown.lo_lt_hi, Nat.sub_self]
  constructor
  · intro h
    have := h (i.hi - 1) (covers_cons.2 (Or.inl ⟨by omega, by omega⟩)) o List.mem_cons_self
      (by omega) (by omega)
    exact ⟨by omega, fun k hk => h k (covers_cons.2 (Or.inr hk))⟩
  · rintro ⟨hend, h⟩ k hk p hp hpk hkp
    rcases covers_cons.1 hk with hin | hk
    · rcases List.mem_cons.1 hp with rfl | hp
      · omega
      · have := (List.pairwise_cons.1 hown.2).1 p hp
        omega
    · exact h k hk p hp hpk hkp

theorem ranks_cons (hsize : n + (own.flatMap keys).length ≤ reservedKey) :
    ranks n own (i :: subset) =
      match Interval.skipBelow i.lo n own with
      | (_, []) => .ok none
      | (n, o :: rest) =>
        if i.lo < o.lo ∨ o.hi < i.hi then .ok none
        else
          sum n i.lo >>= fun first => sum n i.hi >>= fun last =>
            ranks n (o :: rest) subset >>= fun l =>
              .ok (l.map fun l => ⟨first - o.lo, last - o.lo⟩ :: l) := by
  rw [ranks, skipBelow_eq hsize]
  rfl

theorem ranks_eq_ok (hown : Canonical own) (hsub : Canonical subset)
    (hsize : n + (own.flatMap keys).length ≤ reservedKey) (hfits : Fits n own subset) :
    ranks n own subset = .ok (Interval.ranks n own subset) := by
  induction subset generalizing n own with
  | nil => rw [ranks, Interval.ranks]; rfl
  | cons i subset ih =>
    rw [ranks_cons hsize, Interval.ranks]
    rcases hskip : Interval.skipBelow i.lo n own with ⟨n', _ | ⟨o, rest⟩⟩
    · rfl
    -- The intervals that the scan goes on with keep the sum of rank and length, and what fits.
    · obtain ⟨hrest, hlength, _, _⟩ := hown.skipBelow_rest hskip
      have hfits := (fits_rest hown hskip fun _ hk => hsub.lo_le_of_cons hk).1 hfits
      by_cases hout : i.lo < o.lo ∨ o.hi < i.hi
      · simp only [hout, if_true]
      · have hne := hsub.lo_lt_hi
        obtain ⟨hend, hfits⟩ := (fits_cons hrest hne (by omega) (by omega)).1 hfits
        simp only [hout, if_false]
        rw [sum_eq_ok.2 ⟨by omega, rfl⟩, sum_eq_ok.2 ⟨hend, rfl⟩,
          ih hrest hsub.tail (by omega) hfits]
        rfl

theorem of_ranks_eq_ok {a : Option (List Interval)} (hown : Canonical own)
    (hsub : Canonical subset) (hsize : n + (own.flatMap keys).length ≤ reservedKey)
    (h : ranks n own subset = .ok a) :
    Interval.ranks n own subset = a ∧ (a.isSome → Fits n own subset) := by
  induction subset generalizing n own a with
  | nil =>
    rw [ranks] at h
    rw [Interval.ranks]
    exact ⟨Except.ok.inj h, fun _ k hk => absurd hk covers_nil⟩
  | cons i subset ih =>
    rw [ranks_cons hsize] at h
    rw [Interval.ranks]
    rcases hskip : Interval.skipBelow i.lo n own with ⟨n', _ | ⟨o, rest⟩⟩
    · rw [hskip] at h
      obtain rfl := Except.ok.inj h
      exact ⟨rfl, by simp⟩
    · obtain ⟨hrest, hlength, _, _⟩ := hown.skipBelow_rest hskip
      rw [hskip] at h
      by_cases hout : i.lo < o.lo ∨ o.hi < i.hi
      · simp only [hout, if_true] at h ⊢
        obtain rfl := Except.ok.inj h
        exact ⟨rfl, by simp⟩
      · simp only [hout, if_false] at h ⊢
        obtain ⟨first, hfirst, h⟩ := bind_eq_ok.1 h
        obtain ⟨last, hlast, h⟩ := bind_eq_ok.1 h
        obtain ⟨b, hb, h⟩ := bind_eq_ok.1 h
        obtain rfl := Except.ok.inj h
        obtain ⟨_, rfl⟩ := sum_eq_ok.1 hfirst
        obtain ⟨hend, rfl⟩ := sum_eq_ok.1 hlast
        obtain ⟨rfl, hfits⟩ := ih hrest hsub.tail (by omega) hb
        refine ⟨rfl, fun hsome => ?_⟩
        rw [fits_rest hown hskip fun _ hk => hsub.lo_le_of_cons hk,
          fits_cons hrest hsub.lo_lt_hi (by omega) (by omega)]
        exact ⟨hend, hfits (by simpa using hsome)⟩

/-- Some interval of the second list has an end that does not fit with the keys in front of the run
that holds it, and all keys up to that end are there. -/
def Overruns (n : Nat) (own subset : List Interval) : Prop :=
  ∃ i ∈ subset, (∀ k, Covers subset k → k < i.hi → Covers own k) ∧
    ∃ o ∈ own, o.lo ≤ i.lo ∧ i.lo < o.hi ∧ reservedKey < n + below own o.lo + i.hi

theorem not_overruns_nil : ¬ Overruns n own [] := by simp [Overruns]

/-- Nothing overruns if a key of the first interval is missing, since that ends the scan. -/
theorem not_overruns_of_missing (hsub : Canonical (i :: subset)) (hk : i.lo ≤ k) (hki : k < i.hi)
    (hmissing : ¬ Covers own k) : ¬ Overruns n own (i :: subset) := by
  rintro ⟨j, hj, hall, _⟩
  refine hmissing (hall k (covers_cons.2 (Or.inl ⟨hk, hki⟩)) ?_)
  rcases List.mem_cons.1 hj with rfl | hj
  · exact hki
  · have hgap := (List.pairwise_cons.1 hsub.2).1 j hj
    have hne := hsub.1 j (List.mem_cons_of_mem _ hj)
    omega

theorem overruns_rest {n' : Nat} {rest : List Interval} (hown : Canonical own)
    (hsub : Canonical (i :: subset)) (hskip : Interval.skipBelow i.lo n own = (n', rest)) :
    Overruns n own (i :: subset) ↔ Overruns n' rest (i :: subset) := by
  obtain ⟨_, _, hkept, hsame⟩ := hown.skipBelow_rest hskip
  obtain ⟨_, _, hcovers⟩ := skipBelow_spec hown hskip
  have hall : ∀ n : Nat, (∀ k, Covers (i :: subset) k → k < n → Covers own k) ↔
      ∀ k, Covers (i :: subset) k → k < n → Covers rest k := by
    intro n
    refine forall_congr' fun k => forall_congr' fun hk => ?_
    rw [(hcovers k (hsub.lo_le_of_cons hk)).1]
  constructor
  · rintro ⟨j, hj, hhas, o, ho, hlo, hhi, hover⟩
    have hstart : i.lo ≤ j.lo := hsub.lo_le_of_cons ⟨j, hj, Nat.le_refl _, hsub.1 j hj⟩
    have ho' := hkept o ho (by omega)
    exact ⟨j, hj, (hall _).1 hhas, o, ho', hlo, hhi, by rwa [(hsame o ho').2]⟩
  · rintro ⟨j, hj, hhas, o, ho, hlo, hhi, hover⟩
    obtain ⟨ho', hbelow⟩ := hsame o ho
    exact ⟨j, hj, (hall _).2 hhas, o, ho', hlo, hhi, by rwa [← hbelow]⟩

/-- An interval within the first of the others overruns by itself, or else a later one does. -/
theorem overruns_cons (hown : Canonical (o :: own)) (hsub : Canonical (i :: subset))
    (hlo : o.lo ≤ i.lo) (hhi : i.hi ≤ o.hi) : Overruns n (o :: own) (i :: subset) ↔
      reservedKey < n + i.hi ∨ Overruns n (o :: own) subset := by
  have hne := hsub.lo_lt_hi
  have hstart : below (o :: own) o.lo = 0 := by
    rw [below_cons_of_mem hown (Nat.le_refl _) hown.lo_lt_hi, Nat.sub_self]
  have hin : ∀ k, i.lo ≤ k → k < i.hi → Covers (o :: own) k :=
    fun k hk hki => covers_cons.2 (Or.inl ⟨by omega, by omega⟩)
  constructor
  · rintro ⟨j, hj, hall, p, hp, hpj, hjp, hover⟩
    rcases List.mem_cons.1 hj with rfl | hj
    · rcases List.mem_cons.1 hp with rfl | hp
      · exact Or.inl (by omega)
      · have := (List.pairwise_cons.1 hown.2).1 p hp
        omega
    · exact Or.inr ⟨j, hj, fun k hk => hall k (covers_cons.2 (Or.inr hk)), p, hp, hpj, hjp, hover⟩
  · rintro (hover | ⟨j, hj, hall, p, hp, hpj, hjp, hover⟩)
    · refine ⟨i, List.mem_cons_self, fun k hk hki => ?_, o, List.mem_cons_self, hlo, by omega,
        by omega⟩
      exact hin k (hsub.lo_le_of_cons hk) hki
    · refine ⟨j, List.mem_cons_of_mem _ hj, fun k hk hkj => ?_, p, hp, hpj, hjp, hover⟩
      rcases covers_cons.1 hk with hki | hk
      · exact hin k hki.1 hki.2
      · exact hall k hk hkj

theorem exists_ranks_eq_error (hown : Canonical own) (hsub : Canonical subset)
    (hsize : n + (own.flatMap keys).length ≤ reservedKey) :
    (∃ e, ranks n own subset = .error e) ↔ Overruns n own subset := by
  induction subset generalizing n own with
  | nil =>
    rw [ranks]
    exact iff_of_false nofun not_overruns_nil
  | cons i subset ih =>
    have hne := hsub.lo_lt_hi
    rw [ranks_cons hsize]
    rcases hskip : Interval.skipBelow i.lo n own with ⟨n', _ | ⟨o, rest⟩⟩
    · obtain ⟨_, _, hsame⟩ := skipBelow_spec hown hskip
      refine iff_of_false nofun (not_overruns_of_missing hsub (Nat.le_refl _) hne ?_)
      rw [← (hsame i.lo (Nat.le_refl _)).1]
      exact covers_nil
    · obtain ⟨hrest, hlength, _, _⟩ := hown.skipBelow_rest hskip
      obtain ⟨_, hend, _⟩ := skipBelow_spec hown hskip
      have hlt : i.lo < o.hi := hend o rfl
      rw [overruns_rest hown hsub hskip]
      by_cases hout : i.lo < o.lo ∨ o.hi < i.hi
      · simp only [hout, if_true]
        refine iff_of_false nofun ?_
        -- the first key that is missing starts the interval, or stands behind the end of the run
        by_cases hlo : i.lo < o.lo
        · refine not_overruns_of_missing hsub (Nat.le_refl _) hne ?_
          rw [covers_cons, not_or]
          exact ⟨by omega, hrest.not_covers_tail (by omega)⟩
        · refine not_overruns_of_missing (k := o.hi) hsub (by omega) (by omega) ?_
          rw [covers_cons, not_or]
          exact ⟨by omega, hrest.not_covers_tail (Nat.le_refl _)⟩
      · rw [overruns_cons hrest hsub (by omega) (by omega), ← ih hrest hsub.tail (by omega)]
        simp only [hout, if_false]
        by_cases hover : reservedKey < n' + i.hi
        · refine iff_of_true ?_ (Or.inl hover)
          cases hfirst : sum n' i.lo with
          | error e => exact ⟨e, rfl⟩
          | ok first => exact ⟨_, bind_eq_error.2 (Or.inr ⟨first, rfl, bind_eq_error.2
              (Or.inl (sum_eq_error.2 ⟨hover, rfl⟩))⟩)⟩
        · rw [sum_eq_ok.2 ⟨by omega, rfl⟩, sum_eq_ok.2 ⟨by omega, rfl⟩]
          simp only [hover, false_or]
          cases ranks n' (o :: rest) subset with
          | error e => exact iff_of_true ⟨e, rfl⟩ ⟨e, rfl⟩
          | ok l => exact iff_of_false nofun nofun

end Bounded

namespace RowSet

open TickingTable.Interval ShiftRange

variable {r r' s : RowSet} {shifts : List ShiftRange} {a : Option RowSet} {k : Nat}

/-- For each member of `s`, as many keys as are in front of its run in `r` and the member itself add
up below the reserved key. -/
def RanksFit (r s : RowSet) : Prop :=
  ∀ k, k ∈ s → ∀ o ∈ r.intervals, o.lo ≤ k → k < o.hi → r.rank o.lo + k < reservedKey

instance (r s : RowSet) : Decidable (r.RanksFit s) :=
  decidable_of_iff (∀ k ∈ s.toList, ∀ o ∈ r.intervals, o.lo ≤ k → k < o.hi →
    r.rank o.lo + k < reservedKey) (by simp only [RanksFit, mem_toList])

theorem ranksFit_iff : r.RanksFit s ↔ Bounded.Fits 0 r.intervals s.intervals := by
  simp only [Bounded.Fits, Nat.zero_add]
  rfl

/-- In the course of looking `s` up in `r` a sum does not fit: all members of `s` up to the end of
some interval are there, and that end does not fit with the keys in front of its run in `r`. -/
def Overflows (r s : RowSet) : Prop :=
  ∃ i ∈ s.intervals, (∀ k, k ∈ s → k < i.hi → k ∈ r) ∧
    ∃ o ∈ r.intervals, o.lo ≤ i.lo ∧ i.lo < o.hi ∧ reservedKey < r.rank o.lo + i.hi

theorem overflows_iff : r.Overflows s ↔ Bounded.Overruns 0 r.intervals s.intervals := by
  simp only [Bounded.Overruns, Nat.zero_add]
  rfl

theorem size_intervals_le (hr : ∀ k, k ∈ r → k < reservedKey) :
    0 + (r.intervals.flatMap keys).length ≤ reservedKey := by
  rw [Nat.zero_add, length_flatMap_keys]
  exact size_le_of_forall_lt hr

theorem positionsOf_eq_ok (hr : ∀ k, k ∈ r → k < reservedKey) (h : r.RanksFit s) :
    r.positionsOf s = .ok (r.positionsOf? s) := by
  rw [positionsOf, Bounded.ranks_eq_ok r.canonical s.canonical (size_intervals_le hr)
    (ranksFit_iff.1 h)]
  rfl

theorem of_positionsOf_eq_ok (hr : ∀ k, k ∈ r → k < reservedKey) (h : r.positionsOf s = .ok a) :
    r.positionsOf? s = a ∧ (a.isSome → r.RanksFit s) := by
  obtain ⟨l, hl, h⟩ := bind_eq_ok.1 h
  obtain rfl := Except.ok.inj h
  obtain ⟨hranks, hfits⟩ :=
    Bounded.of_ranks_eq_ok r.canonical s.canonical (size_intervals_le hr) hl
  refine ⟨by rw [positionsOf?, hranks], fun hsome => ranksFit_iff.2 (hfits ?_)⟩
  simpa using hsome

theorem exists_positionsOf_eq_error (hr : ∀ k, k ∈ r → k < reservedKey) :
    (∃ e, r.positionsOf s = .error e) ↔ r.Overflows s := by
  rw [overflows_iff, ← Bounded.exists_ranks_eq_error r.canonical s.canonical (size_intervals_le hr),
    positionsOf]
  cases Bounded.ranks 0 r.intervals s.intervals with
  | error e => exact iff_of_true ⟨e, rfl⟩ ⟨e, rfl⟩
  | ok l => exact iff_of_false nofun nofun

/-- The positions of a subset are given just if the ranks fit. -/
theorem ranksFit_iff_positionsOf {p : RowSet} (hr : ∀ k, k ∈ r → k < reservedKey)
    (hp : r.positionsOf? s = some p) : r.RanksFit s ↔ r.positionsOf s = .ok (some p) := by
  constructor
  · intro h
    rw [positionsOf_eq_ok hr h, hp]
  · intro h
    exact (of_positionsOf_eq_ok hr h).2 rfl

/-- Positions are given if the ranks fit, and only then if there are any. They are given for subsets
just, as the ranks of the members in order, by which the members stand in the list of all. -/
theorem positionsOf_tells_ranks (hr : ∀ k, k ∈ r → k < reservedKey) (s : RowSet) :
    (r.RanksFit s → ∃ answer, r.positionsOf s = .ok answer) ∧
    (∀ p, r.positionsOf s = .ok (some p) → r.RanksFit s) ∧
    ∀ answer, r.positionsOf s = .ok answer →
      (answer.isSome ↔ ∀ k, k ∈ s → k ∈ r) ∧
      ∀ p, answer = some p →
        (∀ n, n ∈ p ↔ ∃ k, k ∈ s ∧ r.rank k = n) ∧ p.size = s.size ∧
        (∀ n, n ∈ p → n < r.size) ∧
        ∀ (i n : Nat), p.toList[i]? = some n → ∃ k, s.toList[i]? = some k ∧ r.toList[n]? = some k := by
  refine ⟨fun h => ⟨_, positionsOf_eq_ok hr h⟩, fun p h => (of_positionsOf_eq_ok hr h).2 rfl, ?_⟩
  intro answer h
  obtain ⟨rfl, _⟩ := of_positionsOf_eq_ok hr h
  refine ⟨?_, fun p hp => ?_⟩
  · rw [← Option.ne_none_iff_isSome, ne_eq, positionsOf?_eq_none, not_not]
  · obtain ⟨hsub, hlist⟩ := positionsOf?_eq_some hp
    refine ⟨fun n => ?_, size_positionsOf? hp, fun n => lt_size_of_mem_positionsOf? hp, ?_⟩
    · rw [← mem_toList, hlist, List.mem_map]
      simp only [mem_toList]
    · intro i n hn
      rw [hlist, List.getElem?_map, Option.map_eq_some_iff] at hn
      obtain ⟨k, hk, rfl⟩ := hn
      exact ⟨k, hk, getElem?_rank (hsub k (mem_toList.1 (List.mem_of_getElem? hk)))⟩

/-- The members 2 and 4 are in one run, the next run is skipped. -/
theorem positionsOf_tells_ranks_runs :
    ∃ p, (ofIntervals [⟨1, 5⟩, ⟨10, 12⟩, ⟨20, 30⟩]).positionsOf (ofKeys [2, 4, 22, 23]) = .ok (some p) ∧
      p.toList = [1, 3, 8, 9] ∧ ∀ n, n ∈ p → n < 16 := by
  have hr : ∀ k ∈ (ofIntervals [⟨1, 5⟩, ⟨10, 12⟩, ⟨20, 30⟩]).toList, k < reservedKey := by
    decide +kernel
  have hok : (ofIntervals [⟨1, 5⟩, ⟨10, 12⟩, ⟨20, 30⟩]).positionsOf (ofKeys [2, 4, 22, 23]) =
      .ok (some (ofKeys [1, 3, 8, 9])) := by decide +kernel
  obtain ⟨_, _, htells⟩ := positionsOf_tells_ranks (fun k hk => hr k (mem_toList.2 hk))
    (ofKeys [2, 4, 22, 23])
  obtain ⟨_, _, hlt, _⟩ := (htells _ hok).2 _ rfl
  have hsize : (ofIntervals [⟨1, 5⟩, ⟨10, 12⟩, ⟨20, 30⟩]).size = 16 := by decide +kernel
  rw [hsize] at hlt
  exact ⟨_, hok, by decide +kernel, hlt⟩

/-- The last key that rows can have does not fit together with a key in front of its run. -/
theorem positionsOf_overflows_lastKey :
    (∀ k, k ∈ ofKeys [0, reservedKey - 1] → k < reservedKey) ∧
      (∀ k, k ∈ ofKeys [reservedKey - 1] → k ∈ ofKeys [0, reservedKey - 1]) ∧
      (ofKeys [0, reservedKey - 1]).positionsOf (ofKeys [reservedKey - 1]) =
        .error ⟨1, reservedKey⟩ := by
  have hr : ∀ k ∈ (ofKeys [0, reservedKey - 1]).toList, k < reservedKey := by decide +kernel
  have hsub : ∀ k ∈ (ofKeys [reservedKey - 1]).toList, k ∈ ofKeys [0, reservedKey - 1] := by
    decide +kernel
  exact ⟨fun k hk => hr k (mem_toList.2 hk), fun k hk => hsub k (mem_toList.2 hk),
    by decide +kernel⟩

/-- A subset can be shifted with a set and keeps its positions. -/
theorem exists_shift?_of_subset (hr : ∀ k, k ∈ r → k < reservedKey) (hsub : ∀ k, k ∈ s → k ∈ r)
    (h : r.shift? shifts = some r') : ∃ s', s.shift? shifts = some s' ∧ (∀ k, k ∈ s' → k ∈ r') ∧
      r'.positionsOf? s' = r.positionsOf? s := by
  have hs : ∀ k, k ∈ s → k < reservedKey := fun k hk => hr k (hsub k hk)
  obtain ⟨hordered, hmono⟩ := (exists_shift?_iff hr).1 ⟨r', h⟩
  obtain ⟨s', h'⟩ := (exists_shift?_iff hs).2
    ⟨hordered, fun j k hj hk => hmono j k (hsub j hj) (hsub k hk)⟩
  have hsub' : ∀ k, k ∈ s' → k ∈ r' := by
    intro k hk
    obtain ⟨j, hj, rfl⟩ := (mem_shift? hs h').1 hk
    exact (mem_shift? hr h).2 ⟨j, hsub j hj, rfl⟩
  obtain ⟨p, hp⟩ := positionsOf?_of_subset hsub
  obtain ⟨p', hp'⟩ := positionsOf?_of_subset hsub'
  have hlist : p'.toList = p.toList := by
    rw [(positionsOf?_eq_some hp').2, (positionsOf?_eq_some hp).2, toList_shift? hs h',
      List.map_map]
    apply List.map_congr_left
    intro k hk
    exact rank_shift? hr h (hsub k (mem_toList.1 hk))
  have heq : p' = p := eq_iff_mem.2 fun k => by rw [← mem_toList, hlist, mem_toList]
  exact ⟨s', h', hsub', by rw [hp', hp, heq]⟩

/-- Shifts change keys but not positions: what shifts a set shifts each of its subsets, and the
positions of the subset in the set are the same before and after wherever they are given. -/
theorem positionsOf_shifted (hr : ∀ k, k ∈ r → k < reservedKey) (hsub : ∀ k, k ∈ s → k ∈ r)
    (h : r.shift shifts = .ok (some r')) :
    ∃ s', s.shift shifts = .ok (some s') ∧ (∀ k, k ∈ s' → k ∈ r') ∧ r'.size = r.size ∧
      ∃ p, (r.RanksFit s ↔ r.positionsOf s = .ok (some p)) ∧
        (r'.RanksFit s' ↔ r'.positionsOf s' = .ok (some p)) := by
  have hs : ∀ k, k ∈ s → k < reservedKey := fun k hk => hr k (hsub k hk)
  obtain ⟨hfits, hshift⟩ := (shift_eq_ok hr).1 h
  obtain ⟨s', hshift', hsub', hsame⟩ := exists_shift?_of_subset hr hsub hshift
  have h' : s.shift shifts = .ok (some s') :=
    (shift_eq_ok hs).2 ⟨fun ho k hk => hfits ho k (hsub k hk), hshift'⟩
  obtain ⟨p, hp⟩ := positionsOf?_of_subset hsub
  refine ⟨s', h', hsub', size_shift? hr hshift, p, ?_, ?_⟩
  · rw [ranksFit_iff_positionsOf hr hp]
  · rw [ranksFit_iff_positionsOf (fun k hk => lt_reservedKey_of_shift hr h hk) (hsame.trans hp)]

/-- The shift closes two gaps in the set, and one in the subset. -/
theorem positionsOf_shifted_closingGaps :
    ∃ r' s' p, (ofKeys [1, 2, 3, 10, 11]).shift [⟨10, 20, 4⟩] = .ok (some r') ∧
      r'.toList = [1, 2, 3, 4, 5] ∧ (ofKeys [3, 10]).shift [⟨10, 20, 4⟩] = .ok (some s') ∧
      (∀ k, k ∈ s' → k ∈ r') ∧ (ofKeys [1, 2, 3, 10, 11]).positionsOf (ofKeys [3, 10]) = .ok (some p) ∧
      r'.positionsOf s' = .ok (some p) := by
  have hr : ∀ k ∈ (ofKeys [1, 2, 3, 10, 11]).toList, k < reservedKey := by decide +kernel
  have hsub : ∀ k ∈ (ofKeys [3, 10]).toList, k ∈ ofKeys [1, 2, 3, 10, 11] := by decide +kernel
  have hshift : (ofKeys [1, 2, 3, 10, 11]).shift [⟨10, 20, 4⟩] =
      .ok (some (ofKeys [1, 2, 3, 4, 5])) := by decide +kernel
  have hshift' : (ofKeys [3, 10]).shift [⟨10, 20, 4⟩] = .ok (some (ofKeys [3, 4])) := by
    decide +kernel
  obtain ⟨s', h', hsub', _, p, hp, hp'⟩ := positionsOf_shifted (fun k hk => hr k (mem_toList.2 hk))
    (fun k hk => hsub k (mem_toList.2 hk)) hshift
  obtain rfl : ofKeys [3, 4] = s' := Option.some.inj (Except.ok.inj (hshift'.symm.trans h'))
  exact ⟨_, _, p, hshift, by decide +kernel, h', hsub', hp.1 (by decide +kernel),
    hp'.1 (by decide +kernel)⟩

/-- A shift can bring keys to where their ranks do not fit. -/
theorem positionsOf_shifted_overflows :
    (∀ k, k ∈ ofKeys [0, 5] → moveKey [⟨5, 5, reservedKey - 1⟩] k < reservedKey) ∧
      (ofKeys [0, 5]).shift [⟨5, 5, reservedKey - 1⟩] = .ok (some (ofKeys [0, reservedKey - 1])) ∧
      (ofKeys [5]).shift [⟨5, 5, reservedKey - 1⟩] = .ok (some (ofKeys [reservedKey - 1])) ∧
      (ofKeys [0, 5]).positionsOf (ofKeys [5]) = .ok (some (ofKeys [1])) ∧
      (ofKeys [0, reservedKey - 1]).positionsOf (ofKeys [reservedKey - 1]) =
        .error ⟨1, reservedKey⟩ := by
  have hr : ∀ k ∈ (ofKeys [0, 5]).toList, moveKey [⟨5, 5, reservedKey - 1⟩] k < reservedKey := by
    decide +kernel
  exact ⟨fun k hk => hr k (mem_toList.2 hk), by decide +kernel, by decide +kernel,
    by decide +kernel, by decide +kernel⟩

end RowSet
end TickingTable
