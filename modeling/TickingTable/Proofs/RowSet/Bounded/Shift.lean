import TickingTable.Proofs.Columnwise
import TickingTable.Proofs.RowSet.Composition
import TickingTable.RowSet.Bounded

/-! Shifting in 64-bit sums: it moves each member by itself, unless one goes onto the reserved key. -/

namespace TickingTable

open TickingTable.Interval

namespace Bounded

variable {s : ShiftRange} {shifts : List ShiftRange} {i : Interval} {l m : List Interval}
  {lo hi k n : Nat} {e : SumOverflow}

theorem sum_eq_ok : sum n k = .ok lo ↔ n + k ≤ reservedKey ∧ n + k = lo := by
  unfold sum
  split <;> simp [*]

theorem sum_eq_error : sum n k = .error e ↔ reservedKey < n + k ∧ e = ⟨n, k⟩ := by
  unfold sum
  split <;> simp [eq_comm] <;> omega

theorem image_eq_ok :
    image s lo hi = .ok i ↔ (s.image lo hi).hi ≤ reservedKey ∧ s.image lo hi = i := by
  simp only [image, bind_eq_ok, sum_eq_ok, pure, Except.pure, Except.ok.injEq, ShiftRange.image]
  constructor
  · rintro ⟨_, ⟨_, rfl⟩, _, ⟨hend, rfl⟩, rfl⟩
    exact ⟨hend, rfl⟩
  · rintro ⟨hend, rfl⟩
    exact ⟨_, ⟨by omega, rfl⟩, _, ⟨hend, rfl⟩, rfl⟩

/-- Pieces that stay end at or below `hi`, so that only those that move have ends to check. -/
theorem movedPieces_eq_ok (hhi : hi ≤ reservedKey) : movedPieces lo hi shifts = .ok l ↔
    (∀ i ∈ ShiftRange.movedPieces lo hi shifts, i.hi ≤ reservedKey) ∧
      ShiftRange.movedPieces lo hi shifts = l := by
  induction shifts generalizing lo l with
  | nil =>
    simp only [movedPieces, ShiftRange.movedPieces, pure, Except.pure, Except.ok.injEq]
    split <;> simp [hhi]
  | cons s shifts ih =>
    simp only [movedPieces, ShiftRange.movedPieces]
    split
    · simp [pure, Except.pure]
    · split
      · exact ih
      · split
        · simp only [bind_eq_ok, image_eq_ok, ih, pure, Except.pure, Except.ok.injEq,
            List.forall_mem_cons]
          grind
        · split
          · simp only [bind_eq_ok, image_eq_ok, ih, pure, Except.pure, Except.ok.injEq,
              List.forall_mem_cons]
            grind
          · simp [pure, Except.pure, hhi]

theorem moveAll_eq_ok (hm : ∀ i ∈ m, i.hi ≤ reservedKey) : moveAll m shifts = .ok l ↔
    (∀ i ∈ ShiftRange.moveAll m shifts, i.hi ≤ reservedKey) ∧ ShiftRange.moveAll m shifts = l := by
  induction m generalizing shifts l with
  | nil => simp [moveAll, ShiftRange.moveAll, pure, Except.pure]
  | cons i m ih =>
    obtain ⟨hi, hm⟩ := List.forall_mem_cons.1 hm
    simp only [moveAll, ShiftRange.moveAll, bind_eq_ok, movedPieces_eq_ok hi, ih hm, pure,
      Except.pure, Except.ok.injEq, List.forall_mem_append]
    grind

/-- The last keys of the images fit, so that a sum that does not fit is one too large. -/
theorem image_eq_error (hs : s.dest + (s.last - s.first) ≤ reservedKey) (hfirst : s.first ≤ lo)
    (hlast : lo ≤ s.last) (hhi : hi ≤ s.last + 1) (h : image s lo hi = .error e) :
    e.left + e.right = reservedKey + 1 := by
  simp only [image, bind_eq_error, sum_eq_ok, sum_eq_error, pure, Except.pure, reduceCtorEq,
    and_false, exists_false, or_false] at h
  obtain ⟨hstart, rfl⟩ | ⟨start, ⟨_, rfl⟩, hend, rfl⟩ := h
  · omega
  · dsimp only
    omega

theorem movedPieces_eq_error (hs : ShiftRange.Ordered shifts)
    (h : movedPieces lo hi shifts = .error e) : e.left + e.right = reservedKey + 1 := by
  induction shifts generalizing lo with
  | nil => simp [movedPieces, pure, Except.pure] at h
  | cons s shifts ih =>
    obtain ⟨hrange, himage⟩ := hs.1 s List.mem_cons_self
    simp only [movedPieces] at h
    split at h
    · simp [pure, Except.pure] at h
    · split at h
      · exact ih hs.tail h
      · split at h
        · simp only [bind_eq_error, pure, Except.pure, reduceCtorEq, and_false, exists_false,
            or_false] at h
          obtain h | ⟨_, _, h⟩ := h
          · exact image_eq_error himage (by omega) (by omega) (by omega) h
          · exact ih hs.tail h
        · split at h
          · simp only [bind_eq_error, pure, Except.pure, reduceCtorEq, and_false, exists_false,
              or_false] at h
            obtain h | ⟨_, _, h⟩ := h
            · exact image_eq_error himage (Nat.le_refl _) hrange (by omega) h
            · exact ih hs.tail h
          · simp [pure, Except.pure] at h

theorem moveAll_eq_error (hs : ShiftRange.Ordered shifts) (h : moveAll m shifts = .error e) :
    e.left + e.right = reservedKey + 1 := by
  induction m generalizing shifts with
  | nil => simp [moveAll, pure, Except.pure] at h
  | cons i m ih =>
    have hahead := hs.dropWhile fun s => decide (s.last < i.lo)
    simp only [moveAll, bind_eq_error, pure, Except.pure, reduceCtorEq, and_false, exists_false,
      or_false] at h
    obtain h | ⟨_, _, h⟩ := h
    · exact movedPieces_eq_error hahead h
    · exact ih hahead h

end Bounded

theorem Interval.forall_hi_le_iff {l : List Interval} {n : Nat} (hl : ∀ i ∈ l, i.lo < i.hi) :
    (∀ i ∈ l, i.hi ≤ n) ↔ ∀ k ∈ l.flatMap keys, k < n := by
  constructor
  · intro h k hk
    obtain ⟨i, hi, hk⟩ := List.mem_flatMap.1 hk
    exact Nat.lt_of_lt_of_le (mem_keys.1 hk).2 (h i hi)
  · intro h i hi
    have hne := hl i hi
    have := h (i.hi - 1) (List.mem_flatMap.2 ⟨i, hi, mem_keys.2 ⟨by omega, by omega⟩⟩)
    omega

namespace ShiftRange

variable {shifts : List ShiftRange} {k : Nat}

theorem moveKey_le (hs : Ordered shifts) (hk : k < reservedKey) : moveKey shifts k ≤ reservedKey := by
  obtain hmove | ⟨s, hmem, hlo, hhi, hmove⟩ := moveKey_eq_self_or shifts k
  · rw [hmove]
    exact Nat.le_of_lt hk
  · have := (hs.1 s hmem).2
    omega

/-- Ranges are in order if each one starts after the end of the one ahead of it. -/
theorem ordered_iff : Ordered shifts ↔
    (∀ s ∈ shifts, s.first ≤ s.last ∧ s.dest + (s.last - s.first) ≤ reservedKey) ∧
      ∀ n s t, shifts[n]? = some s → shifts[n + 1]? = some t → s.last < t.first := by
  constructor
  · intro h
    refine ⟨h.1, fun n s t hs ht => ?_⟩
    obtain ⟨hn, rfl⟩ := List.getElem?_eq_some_iff.1 hs
    obtain ⟨hn', rfl⟩ := List.getElem?_eq_some_iff.1 ht
    exact List.pairwise_iff_getElem.1 h.2 n (n + 1) hn hn' (Nat.lt_succ_self n)
  · rintro ⟨hrange, hnext⟩
    rw [← wellFormed_iff]
    induction shifts with
    | nil => rfl
    | cons s shifts ih =>
      have hs := hrange s List.mem_cons_self
      have hrest := ih (fun t ht => hrange t (List.mem_cons_of_mem _ ht)) fun n => hnext (n + 1)
      cases shifts with
      | nil => simpa [wellFormed, inRange] using hs
      | cons t shifts =>
        have hst := hnext 0 s t rfl rfl
        simp [wellFormed, inRange, hs, hst, hrest]

theorem not_ordered_iff : ¬ Ordered shifts ↔
    (∃ s ∈ shifts, s.last < s.first ∨ reservedKey < s.dest + (s.last - s.first)) ∨
      ∃ n s t, shifts[n]? = some s ∧ shifts[n + 1]? = some t ∧ t.first ≤ s.last := by
  rw [ordered_iff, Classical.not_and_iff_not_or_not]
  simp only [not_forall, not_and_or, Nat.not_le, Nat.not_lt, exists_prop]

end ShiftRange

namespace RowSet

open ShiftRange

variable {r r' : RowSet} {shifts : List ShiftRange} {a : Option RowSet} {e : SumOverflow} {k : Nat}

/-- The sums fit just if no member goes onto the reserved key, and then they are those without a
bound. -/
theorem shift_eq_ok (hr : ∀ k, k ∈ r → k < reservedKey) : r.shift shifts = .ok a ↔
    (Ordered shifts → ∀ k, k ∈ r → moveKey shifts k ≠ reservedKey) ∧ r.shift? shifts = a := by
  unfold shift shift?
  split
  · next hnil =>
    obtain rfl := List.isEmpty_iff.1 hnil
    constructor
    · intro h
      exact ⟨fun _ k hk => Nat.ne_of_lt (hr k hk), Except.ok.inj h⟩
    · rintro ⟨_, rfl⟩
      rfl
  · split
    · next hwf =>
      have hs := wellFormed_iff.1 hwf
      have hends : ∀ i ∈ r.intervals, i.hi ≤ reservedKey := fun i hi => hi_le_of_forall_lt hr hi
      have hfits : (∀ i ∈ moveAll r.intervals shifts, i.hi ≤ reservedKey) ↔
          ∀ k, k ∈ r → moveKey shifts k ≠ reservedKey := by
        -- Ends are bounded by bounding the keys, which are the images of the members.
        rw [forall_hi_le_iff fun i hi => lo_lt_hi_of_mem_moveAll hs hends hi,
          keys_moveAll r.canonical hs hends]
        simp only [List.forall_mem_map, mem_flatMap_keys]
        constructor
        · intro h k hk
          exact Nat.ne_of_lt (h k hk)
        · intro h k hk
          exact Nat.lt_of_le_of_ne (moveKey_le hs (hr k hk)) (h k hk)
      simp only [bind_eq_ok, Bounded.moveAll_eq_ok hends, hfits, pure, Except.pure,
        Except.ok.injEq, hs, true_implies]
      constructor
      · rintro ⟨_, ⟨hb, rfl⟩, h⟩
        exact ⟨hb, h⟩
      · rintro ⟨hb, h⟩
        exact ⟨_, ⟨hb, rfl⟩, h⟩
    · next hwf =>
      have hs : ¬ Ordered shifts := fun hs => hwf (wellFormed_iff.2 hs)
      simp [pure, Except.pure, hs]

theorem shift_eq_error (h : r.shift shifts = .error e) : e.left + e.right = reservedKey + 1 := by
  unfold shift at h
  split at h
  · simp [pure, Except.pure] at h
  · split at h
    · next hwf =>
      simp only [bind_eq_error, pure, Except.pure, reduceCtorEq, and_false, exists_false,
        or_false] at h
      exact Bounded.moveAll_eq_error (wellFormed_iff.1 hwf) h
    · simp [pure, Except.pure] at h

theorem exists_shift_eq_error (hr : ∀ k, k ∈ r → k < reservedKey) :
    (∃ e, r.shift shifts = .error e) ↔
      Ordered shifts ∧ ∃ k, k ∈ r ∧ moveKey shifts k = reservedKey := by
  constructor
  · rintro ⟨e, h⟩
    by_contra hfits
    have hok : r.shift shifts = .ok (r.shift? shifts) := by
      refine (shift_eq_ok hr).2 ⟨fun hs k hk hkey => hfits ⟨hs, k, hk, hkey⟩, rfl⟩
    rw [h] at hok
    cases hok
  · rintro ⟨hs, k, hk, hkey⟩
    cases h : r.shift shifts with
    | error e => exact ⟨e, rfl⟩
    | ok a => exact absurd hkey (((shift_eq_ok hr).1 h).1 hs k hk)

theorem lt_reservedKey_of_shift (hr : ∀ k, k ∈ r → k < reservedKey)
    (h : r.shift shifts = .ok (some r')) (hk : k ∈ r') : k < reservedKey := by
  obtain ⟨hfits, hshift⟩ := (shift_eq_ok hr).1 h
  obtain ⟨j, hj, rfl⟩ := (mem_shift? hr hshift).1 hk
  have hs := ordered_of_shift? hshift
  exact Nat.lt_of_le_of_ne (moveKey_le hs (hr j hj)) (hfits hs j hj)

/-- Shifts that send no member onto the reserved key give a result. They are refused just if some
range or its image is not one of 64-bit keys, some range does not start after the end of the one
ahead of it, or the members would not keep their order; else they give the images of the members. -/
theorem shift_moves_each (hr : ∀ k, k ∈ r → k < reservedKey)
    (hb : ∀ k, k ∈ r → moveKey shifts k ≠ reservedKey) :
    ∃ answer, r.shift shifts = .ok answer ∧
      (answer = none ↔
        (∃ s ∈ shifts, s.last < s.first ∨ reservedKey < s.dest + (s.last - s.first)) ∨
        (∃ n s t, shifts[n]? = some s ∧ shifts[n + 1]? = some t ∧ t.first ≤ s.last) ∨
        ¬ StrictMonoOn (moveKey shifts) {k | k ∈ r}) ∧
      ∀ r', answer = some r' → ∀ k, k ∈ r' ↔ ∃ j, j ∈ r ∧ moveKey shifts j = k := by
  refine ⟨r.shift? shifts, (shift_eq_ok hr).2 ⟨fun _ => hb, rfl⟩, ?_, ?_⟩
  · have hmono : StrictMonoOn (moveKey shifts) {k | k ∈ r} ↔
        ∀ j k, j ∈ r → k ∈ r → j < k → moveKey shifts j < moveKey shifts k :=
      ⟨fun h j k hj hk hjk => h hj hk hjk, fun h j hj k hk hjk => h j k hj hk hjk⟩
    rw [← or_assoc, ← not_ordered_iff, hmono, ← not_and_or, ← exists_shift?_iff hr,
      Option.eq_none_iff_forall_ne_some, not_exists]
  · intro r' h k
    exact mem_shift? hr h

/-- The first range cuts a run and moves part of it by one, the second one ends with the 64-bit keys. -/
def cutting : List ShiftRange := [⟨3, 11, 4⟩, ⟨12, reservedKey, 12⟩]

theorem shift_moves_each_cutting :
    ∃ r', (ofKeys [1, 2, 3, 10, 11, reservedKey - 1]).shift cutting = .ok (some r') ∧
      r'.toList = [1, 2, 4, 11, 12, reservedKey - 1] ∧
      ∀ k, k ∈ r' ↔ ∃ j, j ∈ ofKeys [1, 2, 3, 10, 11, reservedKey - 1] ∧ moveKey cutting j = k := by
  have hr : ∀ k ∈ (ofKeys [1, 2, 3, 10, 11, reservedKey - 1]).toList,
      k < reservedKey ∧ moveKey cutting k ≠ reservedKey := by decide +kernel
  obtain ⟨answer, h, _, himage⟩ := shift_moves_each
    (fun k hk => (hr k (mem_toList.2 hk)).1) fun k hk => (hr k (mem_toList.2 hk)).2
  have hshift : (ofKeys [1, 2, 3, 10, 11, reservedKey - 1]).shift cutting =
      .ok (some (ofKeys [1, 2, 4, 11, 12, reservedKey - 1])) := by decide +kernel
  rw [hshift] at h
  obtain rfl := Except.ok.inj h
  exact ⟨_, hshift, by decide +kernel, himage _ rfl⟩

/-- The sums of a shift fit unless ranges in order send a member onto the reserved key: then the end
of its piece is one too large. Where they fit the result, if there is one, has as many members, all
below the reserved key. -/
theorem shift_fits_unless_reserved (hr : ∀ k, k ∈ r → k < reservedKey) (shifts : List ShiftRange) :
    ((∃ e, r.shift shifts = .error e) ↔
      Ordered shifts ∧ ∃ k, k ∈ r ∧ moveKey shifts k = reservedKey) ∧
    (∀ e, r.shift shifts = .error e → e.left + e.right = reservedKey + 1) ∧
    ∀ r', r.shift shifts = .ok (some r') → r'.size = r.size ∧ ∀ k, k ∈ r' → k < reservedKey := by
  refine ⟨exists_shift_eq_error hr, fun _ h => shift_eq_error h, fun r' h => ⟨?_, fun k => ?_⟩⟩
  · exact size_shift? hr ((shift_eq_ok hr).1 h).2
  · exact lt_reservedKey_of_shift hr h

theorem shift_fits_unless_reserved_pair :
    ∃ e, (ofKeys [10, 11]).shift [⟨10, 11, reservedKey - 1⟩] = .error e ∧
      e.left + e.right = reservedKey + 1 := by
  have hr : ∀ k ∈ (ofKeys [10, 11]).toList, k < reservedKey := by decide +kernel
  obtain ⟨hiff, hsum, _⟩ := shift_fits_unless_reserved (fun k hk => hr k (mem_toList.2 hk))
    [⟨10, 11, reservedKey - 1⟩]
  obtain ⟨e, he⟩ := hiff.2 ⟨wellFormed_iff.1 (by decide), 11, by decide +kernel, by decide⟩
  exact ⟨e, he, hsum e he⟩

/-- A message whose one range sends a key exactly onto the reserved key. -/
def ontoReserved : UpdateMetadata := ⟨0, 0, false, .empty, [⟨10, 10, reservedKey⟩], .empty, []⟩

/-- A message that is read without an error makes a shift leave the 64-bit numbers. -/
theorem shift_overflows_ontoReserved :
    UpdateMetadata.decode ontoReserved.encode = .ok ontoReserved ∧
      (∀ k, k ∈ ofKeys [10] → k < reservedKey) ∧
      (ofKeys [10]).shift ontoReserved.shifts = .error ⟨reservedKey, 1⟩ := by
  have hr : ∀ k ∈ (ofKeys [10]).toList, k < reservedKey := by decide +kernel
  exact ⟨by decide +kernel, fun k hk => hr k (mem_toList.2 hk), by decide +kernel⟩

end RowSet
end TickingTable
