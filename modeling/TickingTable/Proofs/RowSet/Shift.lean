import TickingTable.Proofs.RowSet.Members
import TickingTable.RowSet.Shift

/-! Shifting moves each member by itself and keeps its rank. -/

namespace TickingTable

open TickingTable.Interval

namespace ShiftRange

variable {s : ShiftRange} {shifts : List ShiftRange} {k lo mid hi : Nat}

/-- Where the ranges send a key: it stays where it is if no range holds it. -/
def moveKey (shifts : List ShiftRange) (k : Nat) : Nat :=
  match shifts.find? fun s => decide (s.first ≤ k ∧ k ≤ s.last) with
  | some s => s.dest + (k - s.first)
  | none => k

theorem moveKey_of_mem (hlo : s.first ≤ k) (hhi : k ≤ s.last) :
    moveKey (s :: shifts) k = s.dest + (k - s.first) := by simp [moveKey, hlo, hhi]

theorem moveKey_of_lt (h : s.last < k) : moveKey (s :: shifts) k = moveKey shifts k := by
  simp [moveKey, show ¬ k ≤ s.last by omega]

theorem moveKey_of_before (h : ∀ s ∈ shifts, k < s.first) : moveKey shifts k = k := by
  have hnone : (shifts.find? fun s => decide (s.first ≤ k ∧ k ≤ s.last)) = none := by
    rw [List.find?_eq_none]
    intro s hs
    have := h s hs
    simp only [decide_eq_true_eq]
    omega
  rw [moveKey, hnone]

theorem moveKey_eq_self_or (shifts : List ShiftRange) (k : Nat) : moveKey shifts k = k ∨
    ∃ s ∈ shifts, s.first ≤ k ∧ k ≤ s.last ∧ moveKey shifts k = s.dest + (k - s.first) := by
  unfold moveKey
  split
  · next s hfind =>
    obtain ⟨hlo, hhi⟩ : s.first ≤ k ∧ k ≤ s.last := by simpa using List.find?_some hfind
    exact Or.inr ⟨s, List.mem_of_find?_eq_some hfind, hlo, hhi, rfl⟩
  · exact Or.inl rfl

theorem moveKey_dropWhile (h : lo ≤ k) :
    moveKey (shifts.dropWhile fun s => decide (s.last < lo)) k = moveKey shifts k := by
  induction shifts with
  | nil => rfl
  | cons s shifts ih =>
    by_cases hs : s.last < lo
    · rw [moveKey_of_lt (by omega), ← ih]
      simp [hs]
    · simp [hs]

/-- The ranges ascend without overlap and neither they nor their images leave the 64-bit keys. -/
def Ordered (shifts : List ShiftRange) : Prop :=
  (∀ s ∈ shifts, s.first ≤ s.last ∧ s.dest + (s.last - s.first) ≤ reservedKey) ∧
    shifts.Pairwise fun s t => s.last < t.first

theorem Ordered.tail (h : Ordered (s :: shifts)) : Ordered shifts :=
  ⟨fun t ht => h.1 t (List.mem_cons_of_mem _ ht), (List.pairwise_cons.1 h.2).2⟩

theorem Ordered.dropWhile (h : Ordered shifts) (p : ShiftRange → Bool) :
    Ordered (shifts.dropWhile p) :=
  ⟨fun t ht => h.1 t ((List.dropWhile_sublist p).subset ht),
    h.2.sublist (List.dropWhile_sublist p)⟩

theorem ordered_of_wellFormed (h : wellFormed shifts = true) : Ordered shifts := by
  induction shifts with
  | nil => exact ⟨by simp, .nil⟩
  | cons s shifts ih =>
    cases shifts with
    | nil => simpa [Ordered, wellFormed, inRange] using h
    | cons t shifts =>
      simp only [wellFormed, inRange, Bool.and_eq_true, decide_eq_true_eq] at h
      obtain ⟨⟨hs, hst⟩, hrest⟩ := h
      have ho := ih hrest
      constructor
      · intro u hu
        rcases List.mem_cons.1 hu with rfl | hu
        · exact hs
        · exact ho.1 u hu
      · refine List.pairwise_cons.2 ⟨fun u hu => ?_, ho.2⟩
        rcases List.mem_cons.1 hu with rfl | hu
        · exact hst
        · have htu := (List.pairwise_cons.1 ho.2).1 u hu
          have ht := (ho.1 t List.mem_cons_self).1
          omega

theorem wellFormed_iff : wellFormed shifts = true ↔ Ordered shifts := by
  refine ⟨ordered_of_wellFormed, fun h => ?_⟩
  induction shifts with
  | nil => rfl
  | cons s shifts ih =>
    cases shifts with
    | nil => simpa [Ordered, wellFormed, inRange] using h
    | cons t shifts =>
      have hs := h.1 s List.mem_cons_self
      have hst := (List.pairwise_cons.1 h.2).1 t List.mem_cons_self
      simp [wellFormed, inRange, hs, hst, ih h.tail]

theorem range'_split (hl : lo ≤ mid) (hh : mid ≤ hi) :
    List.range' lo (hi - lo) = List.range' lo (mid - lo) ++ List.range' mid (hi - mid) := by
  have h := List.range'_append_1 (s := lo) (m := mid - lo) (n := hi - mid)
  rw [show lo + (mid - lo) = mid by omega, show mid - lo + (hi - mid) = hi - lo by omega] at h
  exact h.symm

theorem keys_image (hs : s.first ≤ lo) (hh : hi ≤ s.last + 1) :
    (s.image lo hi).keys = (List.range' lo (hi - lo)).map (moveKey (s :: shifts)) := by
  apply List.ext_getElem
  · simp only [image, keys, Interval.size, List.length_range', List.length_map]
    omega
  · intro n hn hn'
    have hlt : n < hi - lo := by simpa using hn'
    simp only [image, keys, List.getElem_map, List.getElem_range', Nat.one_mul]
    rw [moveKey_of_mem (by omega) (by omega)]
    omega

theorem map_moveKey_eq_self (h : ∀ s ∈ shifts, hi ≤ s.first) :
    (List.range' lo (hi - lo)).map (moveKey shifts) = List.range' lo (hi - lo) := by
  conv_rhs => rw [← List.map_id (List.range' lo (hi - lo))]
  apply List.map_congr_left
  intro k hk
  have hk := List.mem_range'_1.1 hk
  apply moveKey_of_before
  intro s hs
  have := h s hs
  omega

theorem map_moveKey_of_lt (h : hi ≤ lo ∨ s.last < lo) :
    (List.range' lo (hi - lo)).map (moveKey (s :: shifts)) =
      (List.range' lo (hi - lo)).map (moveKey shifts) := by
  apply List.map_congr_left
  intro k hk
  have hk := List.mem_range'_1.1 hk
  exact moveKey_of_lt (by omega)

theorem keys_movedPieces (hs : Ordered shifts) (hhi : hi ≤ reservedKey) :
    (movedPieces lo hi shifts).flatMap keys =
      (List.range' lo (hi - lo)).map (moveKey shifts) := by
  induction shifts generalizing lo with
  | nil =>
    rw [map_moveKey_eq_self (by simp), movedPieces]
    split
    · simp [keys, Interval.size]
    · next hlt => simp [show hi - lo = 0 by omega]
  | cons s shifts ih =>
    have hrange := (hs.1 s List.mem_cons_self).1
    simp only [movedPieces]
    split
    · next hle => simp [show hi - lo = 0 by omega]
    · split
      · next hlast => rw [ih hs.tail, map_moveKey_of_lt (Or.inr hlast)]
      · generalize hstop : min hi (min (s.last + 1) reservedKey) = stop
        have hrest : (movedPieces stop hi shifts).flatMap keys =
            (List.range' stop (hi - stop)).map (moveKey (s :: shifts)) := by
          rw [ih hs.tail, map_moveKey_of_lt (by omega)]
        split
        · next hfirst =>
          rw [List.flatMap_cons, hrest, keys_image hfirst (by omega), ← List.map_append,
            ← range'_split (by omega) (by omega)]
        · next hfirst =>
          split
          · have hbefore : (Interval.mk lo s.first).keys =
                (List.range' lo (s.first - lo)).map (moveKey (s :: shifts)) := by
              rw [map_moveKey_eq_self]
              · rfl
              · intro t ht
                rcases List.mem_cons.1 ht with rfl | ht
                · exact Nat.le_refl _
                · have := (List.pairwise_cons.1 hs.2).1 t ht
                  omega
            rw [List.flatMap_cons, List.flatMap_cons, hbefore, hrest,
              keys_image (Nat.le_refl _) (by omega), ← List.map_append, ← List.map_append,
              ← range'_split (by omega) (by omega), ← range'_split (by omega) (by omega)]
          · rw [map_moveKey_eq_self]
            · simp [keys, Interval.size]
            · intro t ht
              rcases List.mem_cons.1 ht with rfl | ht
              · omega
              · have := (List.pairwise_cons.1 hs.2).1 t ht
                omega

theorem keys_moveAll {l : List Interval} (hl : Canonical l) (hs : Ordered shifts)
    (hhi : ∀ i ∈ l, i.hi ≤ reservedKey) :
    (moveAll l shifts).flatMap keys = (l.flatMap keys).map (moveKey shifts) := by
  induction l generalizing shifts with
  | nil => rfl
  | cons i l ih =>
    have hahead := hs.dropWhile fun s => decide (s.last < i.lo)
    obtain ⟨hfar, hpair⟩ := List.pairwise_cons.1 hl.2
    have hl' : Canonical l := ⟨fun j hj => hl.1 j (List.mem_cons_of_mem _ hj), hpair⟩
    rw [moveAll, List.flatMap_append, keys_movedPieces hahead (hhi i List.mem_cons_self),
      ih hl' hahead fun j hj => hhi j (List.mem_cons_of_mem _ hj), List.flatMap_cons,
      List.map_append]
    have hne := hl.1 i List.mem_cons_self
    congr 1 <;> apply List.map_congr_left <;> intro k hk
    · exact moveKey_dropWhile (List.mem_range'_1.1 hk).1
    · obtain ⟨j, hj, hk⟩ := List.mem_flatMap.1 hk
      have hij := hfar j hj
      have hjk := (mem_keys.1 hk).1
      exact moveKey_dropWhile (by omega)

/-- No piece is empty. -/
theorem lo_lt_hi_of_mem_movedPieces {i : Interval} (hs : Ordered shifts) (hhi : hi ≤ reservedKey)
    (h : i ∈ movedPieces lo hi shifts) : i.lo < i.hi := by
  induction shifts generalizing lo with
  | nil =>
    simp only [movedPieces] at h
    split at h
    · obtain rfl := List.mem_singleton.1 h
      dsimp only
      omega
    · simp at h
  | cons s shifts ih =>
    have hrange := (hs.1 s List.mem_cons_self).1
    simp only [movedPieces] at h
    split at h
    · simp at h
    · split at h
      · exact ih hs.tail h
      · split at h
        · rcases List.mem_cons.1 h with rfl | h
          · dsimp only [image]
            omega
          · exact ih hs.tail h
        · split at h
          · rcases List.mem_cons.1 h with rfl | h
            · dsimp only
              omega
            · rcases List.mem_cons.1 h with rfl | h
              · dsimp only [image]
                omega
              · exact ih hs.tail h
          · obtain rfl := List.mem_singleton.1 h
            dsimp only
            omega

theorem lo_lt_hi_of_mem_moveAll {l : List Interval} {i : Interval} (hs : Ordered shifts)
    (hhi : ∀ j ∈ l, j.hi ≤ reservedKey) (h : i ∈ moveAll l shifts) : i.lo < i.hi := by
  induction l generalizing shifts with
  | nil => simp [moveAll] at h
  | cons j l ih =>
    have hahead := hs.dropWhile fun s => decide (s.last < j.lo)
    rcases List.mem_append.1 h with h | h
    · exact lo_lt_hi_of_mem_movedPieces hahead (hhi j List.mem_cons_self) h
    · exact ih hahead (fun k hk => hhi k (List.mem_cons_of_mem _ hk)) h

end ShiftRange

theorem Interval.pairwise_of_not_reordered {l : List Interval} (hl : ∀ i ∈ l, i.lo ≤ i.hi)
    (h : reordered l = false) : l.Pairwise fun a b => a.hi ≤ b.lo := by
  induction l with
  | nil => exact .nil
  | cons a l ih =>
    cases l with
    | nil => exact List.pairwise_singleton _ _
    | cons b l =>
      simp only [reordered, Bool.or_eq_false_iff, decide_eq_false_iff_not, Nat.not_lt] at h
      have hpair := ih (fun i hi => hl i (List.mem_cons_of_mem _ hi)) h.2
      refine List.pairwise_cons.2 ⟨fun c hc => ?_, hpair⟩
      rcases List.mem_cons.1 hc with rfl | hc
      · exact h.1
      · have hbc := (List.pairwise_cons.1 hpair).1 c hc
        have hb := hl b (List.mem_cons_of_mem _ List.mem_cons_self)
        omega

theorem Interval.reordered_eq_false {l : List Interval} (hl : ∀ i ∈ l, i.lo < i.hi)
    (h : (l.flatMap keys).Pairwise (· < ·)) : reordered l = false := by
  induction l with
  | nil => rfl
  | cons a l ih =>
    cases l with
    | nil => rfl
    | cons b l =>
      have ha := hl a List.mem_cons_self
      have hb := hl b (List.mem_cons_of_mem _ List.mem_cons_self)
      rw [List.flatMap_cons, List.pairwise_append] at h
      obtain ⟨_, hrest, hcross⟩ := h
      have hlast : a.hi - 1 ∈ a.keys := mem_keys.2 ⟨by omega, by omega⟩
      have hfirst : b.lo ∈ (b :: l).flatMap keys :=
        mem_flatMap_keys.2 (covers_cons.2 (Or.inl ⟨Nat.le_refl _, hb⟩))
      have hlt := hcross _ hlast _ hfirst
      rw [reordered, ih (fun i hi => hl i (List.mem_cons_of_mem _ hi)) hrest, Bool.or_false,
        decide_eq_false_iff_not]
      omega

namespace RowSet

open ShiftRange

variable {r r' : RowSet} {shifts : List ShiftRange} {k : Nat}

/-- No range sends a member exactly onto the reserved key. -/
def ShiftsBelow (r : RowSet) (shifts : List ShiftRange) : Prop :=
  ∀ k, k ∈ r → ∀ s ∈ shifts, s.first ≤ k → k ≤ s.last → s.dest + (k - s.first) ≠ reservedKey

theorem hi_le_of_forall_lt (hr : ∀ k, k ∈ r → k < reservedKey) {i : Interval}
    (hi : i ∈ r.intervals) : i.hi ≤ reservedKey := by
  have hne := r.canonical.1 i hi
  have := hr (i.hi - 1) ⟨i, hi, by omega, by omega⟩
  omega

/-- The members of a shifted set are the images of the members, in the same order. -/
theorem toList_shift? (hr : ∀ k, k ∈ r → k < reservedKey) (h : r.shift? shifts = some r') :
    r'.toList = r.toList.map (moveKey shifts) := by
  unfold shift? at h
  split at h
  · next hnil =>
    obtain rfl := List.isEmpty_iff.1 hnil
    obtain rfl := Option.some.inj h
    exact (List.map_id _).symm
  · split at h
    · next hwf =>
      have hs := ordered_of_wellFormed hwf
      dsimp only at h
      split at h
      · simp at h
      · next hord =>
        obtain rfl := Option.some.inj h
        have hends : ∀ i ∈ r.intervals, i.hi ≤ reservedKey := fun i hi => hi_le_of_forall_lt hr hi
        have hpair := pairwise_of_not_reordered
          (fun i hi => Nat.le_of_lt (lo_lt_hi_of_mem_moveAll hs hends hi))
          (Bool.not_eq_true _ ▸ hord)
        rw [toList_ofIntervals (pairwise_flatMap_keys hpair), keys_moveAll r.canonical hs hends]
        rfl
    · simp at h

theorem size_shift? (hr : ∀ k, k ∈ r → k < reservedKey) (h : r.shift? shifts = some r') :
    r'.size = r.size := by
  rw [← length_toList, toList_shift? hr h, List.length_map, length_toList]

theorem mem_shift? (hr : ∀ k, k ∈ r → k < reservedKey) (h : r.shift? shifts = some r') :
    k ∈ r' ↔ ∃ j, j ∈ r ∧ moveKey shifts j = k := by
  rw [← mem_toList, toList_shift? hr h, List.mem_map]
  simp only [mem_toList]

/-- Shifts change keys but not positions. -/
theorem rank_shift? (hr : ∀ k, k ∈ r → k < reservedKey) (h : r.shift? shifts = some r')
    (hk : k ∈ r) : r'.rank (moveKey shifts k) = r.rank k := by
  apply rank_eq_of_getElem?
  rw [toList_shift? hr h, List.getElem?_map, getElem?_rank hk]
  rfl

theorem ordered_of_shift? (h : r.shift? shifts = some r') : Ordered shifts := by
  apply wellFormed_iff.1
  by_contra hn
  cases shifts with
  | nil => exact hn rfl
  | cons s shifts => simp [shift?, hn] at h

/-- Shifts are carried out just if they are in order and keep the order of the members. -/
theorem exists_shift?_iff (hr : ∀ k, k ∈ r → k < reservedKey) :
    (∃ r', r.shift? shifts = some r') ↔ Ordered shifts ∧
      ∀ j k, j ∈ r → k ∈ r → j < k → moveKey shifts j < moveKey shifts k := by
  constructor
  · rintro ⟨r', h⟩
    refine ⟨ordered_of_shift? h, fun j k hj hk hjk => ?_⟩
    have hlt := (rank_lt_rank_iff hj hk).2 hjk
    rw [← rank_shift? hr h hj, ← rank_shift? hr h hk] at hlt
    exact (rank_lt_rank_iff ((mem_shift? hr h).2 ⟨j, hj, rfl⟩)
      ((mem_shift? hr h).2 ⟨k, hk, rfl⟩)).1 hlt
  · rintro ⟨hs, hmono⟩
    have hends : ∀ i ∈ r.intervals, i.hi ≤ reservedKey := fun i hi => hi_le_of_forall_lt hr hi
    have hasc : ((moveAll r.intervals shifts).flatMap keys).Pairwise (· < ·) := by
      rw [keys_moveAll r.canonical hs hends, List.pairwise_map]
      apply r.pairwise_toList.imp_of_mem
      intro j k hj hk hjk
      exact hmono j k (mem_toList.1 hj) (mem_toList.1 hk) hjk
    have hord := reordered_eq_false (fun i hi => lo_lt_hi_of_mem_moveAll hs hends hi) hasc
    cases shifts with
    | nil => exact ⟨r, rfl⟩
    | cons s shifts =>
      refine ⟨.ofIntervals (moveAll r.intervals (s :: shifts)), ?_⟩
      simp [shift?, wellFormed_iff.2 hs, hord]

theorem lt_reservedKey_of_shift? (hr : ∀ k, k ∈ r → k < reservedKey)
    (hb : r.ShiftsBelow shifts) (h : r.shift? shifts = some r') (hk : k ∈ r') :
    k < reservedKey := by
  obtain ⟨j, hj, rfl⟩ := (mem_shift? hr h).1 hk
  obtain hmove | ⟨s, hs, hlo, hhi, hmove⟩ := moveKey_eq_self_or shifts j
  · rw [hmove]
    exact hr j hj
  · have hne := hb j hj s hs hlo hhi
    have := ((ordered_of_shift? h).1 s hs).2
    omega

end RowSet
end TickingTable
