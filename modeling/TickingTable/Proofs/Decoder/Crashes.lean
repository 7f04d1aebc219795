import TickingTable.Decoder.Bounded
import TickingTable.Proofs.Decoder.Fitting
import TickingTable.Proofs.RowSet.Bounded.Positions
import TickingTable.Proofs.Wire.Metadata

/-! Which messages make a decoder panic, told by the keys alone. -/

namespace TickingTable

namespace RowSet

variable {r s : RowSet}

theorem not_overflows {a : Option RowSet} (hr : ∀ k, k ∈ r → k < reservedKey)
    (h : r.positionsOf s = .ok a) : ¬ r.Overflows s := by
  intro hover
  obtain ⟨e, he⟩ := (exists_positionsOf_eq_error hr).2 hover
  rw [h] at he
  cases he

theorem not_isEmpty_iff_size : (!r.isEmpty) = true ↔ 0 < r.size := by
  rw [Bool.not_eq_true', Bool.eq_false_iff, ne_eq, isEmpty_iff_size, Nat.pos_iff_ne_zero]

theorem not_isEmpty_iff : (!r.isEmpty) = true ↔ ∃ k, k ∈ r := by
  rw [Bool.not_eq_true', Bool.eq_false_iff, ne_eq, isEmpty_iff, List.eq_nil_iff_forall_not_mem]
  simp only [mem_toList, not_forall, not_not]

end RowSet

namespace UpdateMetadata

open ShiftRange Decoder

variable {m : UpdateMetadata} {keys after shifted modified : RowSet} {declared : List RowSet}
  {k : Nat}

/-- What a message makes of the keys before it modifies rows, as far as it fits them. -/
structure Gives (m : UpdateMetadata) (keys after : RowSet) : Prop where
  removed : m.RemovesKnown keys
  shifts : m.ShiftsInOrder keys
  added : m.AddsNew keys
  mem_iff : ∀ k, k ∈ after ↔ m.Keeps keys k ∨ k ∈ m.added

theorem Gives.unique {after' : RowSet} (h : m.Gives keys after) (h' : m.Gives keys after') :
    after = after' :=
  RowSet.eq_iff_mem.2 fun k => (h.mem_iff k).trans (h'.mem_iff k).symm

section

variable (hkeys : ∀ k, k ∈ keys → k < reservedKey)

include hkeys

theorem gives_of_shifted (hremoved : m.RemovesKnown keys)
    (hshift : (keys.difference m.removed).shift? m.shifts = some shifted)
    (hnew : ∀ k, k ∈ m.added → ¬ k ∈ shifted) : m.Gives keys (shifted.union m.added) where
  removed := hremoved
  shifts := (exists_shifted_iff hkeys).1 ⟨shifted, hshift⟩
  added := (addsNew_iff hkeys hshift).2 hnew
  mem_iff k := by rw [RowSet.mem_union, mem_shifted hkeys hshift]

theorem not_gives_of_shift (hshift : (keys.difference m.removed).shift? m.shifts = none) :
    ¬ m.Gives keys after := by
  intro h
  obtain ⟨shifted, hsome⟩ := (exists_shifted_iff hkeys).2 h.shifts
  rw [hshift] at hsome
  cases hsome

theorem not_gives_of_intersects
    (hshift : (keys.difference m.removed).shift? m.shifts = some shifted)
    (hmeet : shifted.intersects m.added = true) : ¬ m.Gives keys after := by
  intro h
  obtain ⟨k, hk, hk'⟩ := RowSet.intersects_iff.1 hmeet
  exact h.added k hk' ((mem_shifted hkeys hshift).1 hk)

theorem Gives.size_add (h : m.Gives keys after) :
    after.size + m.removed.size = keys.size + m.added.size := by
  obtain ⟨shifted, hshift⟩ := (exists_shifted_iff hkeys).2 h.shifts
  have hnew := (addsNew_iff hkeys hshift).1 h.added
  have hmoved := RowSet.size_shift? (lt_of_mem_difference hkeys _) hshift
  have hleft := RowSet.size_difference h.removed
  rw [h.unique (gives_of_shifted hkeys h.removed hshift hnew),
    RowSet.size_union fun k hk hk' => hnew k hk' hk]
  omega

end

/-- The ranks of the rows of some column are no 64-bit sums, and the rows of all columns ahead of it
are known. -/
def Overflowing (keys : RowSet) (declared : List RowSet) : Prop :=
  ∃ (c : Nat) (modified : RowSet), declared[c]? = some modified ∧ keys.Overflows modified ∧
    ∀ i < c, ∀ earlier, declared[i]? = some earlier → ∀ k, k ∈ earlier → k ∈ keys

/-- What makes a decoder with these keys panic over a message, where everything ahead of it fits: the
ranks of removed, added or modified rows are no 64-bit sums, a row that stays goes exactly onto the
reserved key, or the added rows make more rows than memory can address. -/
inductive Crashes (m : UpdateMetadata) (keys : RowSet) : Prop
  | removed : keys.Overflows m.removed → Crashes m keys
  | shifts (k : Nat) : m.RemovesKnown keys → Ordered m.shifts → k ∈ keys → ¬ k ∈ m.removed →
    moveKey m.shifts k = reservedKey → Crashes m keys
  | added (after : RowSet) : m.Gives keys after → after.Overflows m.added → Crashes m keys
  | rows (after : RowSet) (k : Nat) : m.Gives keys after → k ∈ m.added →
    rowLimit ≤ after.size → Crashes m keys
  | modified (after : RowSet) : m.Gives keys after → Overflowing after m.modified → Crashes m keys

theorem overflowing_cons : Overflowing keys (modified :: declared) ↔
    keys.Overflows modified ∨ (∀ k, k ∈ modified → k ∈ keys) ∧ Overflowing keys declared := by
  constructor
  · rintro ⟨c, other, hc, hover, hearlier⟩
    cases c with
    | zero =>
      cases hc
      exact Or.inl hover
    | succ c =>
      refine Or.inr ⟨hearlier 0 (Nat.succ_pos c) modified rfl, c, other, hc, hover, ?_⟩
      exact fun i hi => hearlier (i + 1) (Nat.succ_lt_succ hi)
  · rintro (hover | ⟨hknown, c, other, hc, hover, hearlier⟩)
    · exact ⟨0, modified, rfl, hover, fun i hi => absurd hi (Nat.not_lt_zero i)⟩
    · refine ⟨c + 1, other, hc, hover, fun i hi earlier he => ?_⟩
      cases i with
      | zero =>
        cases he
        exact hknown
      | succ i => exact hearlier i (Nat.lt_of_succ_lt_succ hi) earlier he

theorem exists_lookUp_eq_error (hkeys : ∀ k, k ∈ keys → k < reservedKey) :
    (∃ e, lookUp keys declared = .error e) ↔ Overflowing keys declared := by
  induction declared with
  | nil => exact iff_of_false nofun fun ⟨c, modified, hc, _⟩ => nomatch hc
  | cons modified declared ih =>
    rw [lookUp, overflowing_cons]
    cases hpos : keys.positionsOf modified with
    | error e =>
      have hover := (RowSet.exists_positionsOf_eq_error hkeys).1 ⟨e, hpos⟩
      exact iff_of_true ⟨e, rfl⟩ (Or.inl hover)
    | ok answer =>
      rw [or_iff_right (RowSet.not_overflows hkeys hpos)]
      obtain ⟨hanswer, _⟩ := RowSet.of_positionsOf_eq_ok hkeys hpos
      cases answer with
      | none =>
        exact iff_of_false nofun fun h => RowSet.positionsOf?_eq_none.1 hanswer h.1
      | some p =>
        rw [and_iff_right (RowSet.positionsOf?_eq_some hanswer).1]
        exact ih

/-- Behind the shifts a message panics over the keys that it gives. -/
theorem crashes_iff_of_gives (hremoved : ¬ keys.Overflows m.removed)
    (hshift : ∀ k, k ∈ keys → ¬ k ∈ m.removed → moveKey m.shifts k ≠ reservedKey)
    (hgives : m.Gives keys after) : m.Crashes keys ↔ after.Overflows m.added ∨
      ((∃ k, k ∈ m.added) ∧ rowLimit ≤ after.size) ∨ Overflowing after m.modified := by
  constructor
  · intro h
    cases h with
    | removed hover => exact absurd hover hremoved
    | shifts k _ _ hk hkept hmove => exact absurd hmove (hshift k hk hkept)
    | added after' h hover => exact Or.inl (hgives.unique h ▸ hover)
    | rows after' k h hk hlimit => exact Or.inr (Or.inl ⟨⟨k, hk⟩, hgives.unique h ▸ hlimit⟩)
    | modified after' h hover => exact Or.inr (Or.inr (hgives.unique h ▸ hover))
  · rintro (hover | ⟨⟨k, hk⟩, hlimit⟩ | hover)
    · exact .added after hgives hover
    · exact .rows after k hgives hk hlimit
    · exact .modified after hgives hover

/-- Of a message that does not fit the keys as far as its added rows, the shifts can panic only. -/
theorem not_crashes_of_not_gives (hremoved : ¬ keys.Overflows m.removed)
    (hshift : m.RemovesKnown keys → Ordered m.shifts →
      ∀ k, k ∈ keys → ¬ k ∈ m.removed → moveKey m.shifts k ≠ reservedKey)
    (hno : ∀ after, ¬ m.Gives keys after) : ¬ m.Crashes keys := by
  intro h
  cases h with
  | removed hover => exact hremoved hover
  | shifts k hknown hordered hk hkept hmove => exact hshift hknown hordered k hk hkept hmove
  | added after h _ => exact hno after h
  | rows after k h _ _ => exact hno after h
  | modified after h _ => exact hno after h

theorem exists_fillBounds_eq_error (hkeys : ∀ k, k ∈ keys → k < reservedKey)
    (hsub : ∀ k, k ∈ m.added → k ∈ keys) : (∃ c, fillBounds keys m = .error c) ↔
      keys.Overflows m.added ∨ ((∃ k, k ∈ m.added) ∧ rowLimit ≤ keys.size) ∨
        Overflowing keys m.modified := by
  unfold fillBounds
  cases hpos : keys.positionsOf m.added with
  | error e =>
    have hover := (RowSet.exists_positionsOf_eq_error hkeys).1 ⟨e, hpos⟩
    exact iff_of_true ⟨.overflow e, rfl⟩ (Or.inl hover)
  | ok answer =>
    have hfits := RowSet.not_overflows hkeys hpos
    obtain ⟨hanswer, _⟩ := RowSet.of_positionsOf_eq_ok hkeys hpos
    cases answer with
    | none => exact absurd hsub (RowSet.positionsOf?_eq_none.1 hanswer)
    | some added =>
      have hadds : (!added.isEmpty) = true ↔ ∃ k, k ∈ m.added := by
        rw [RowSet.not_isEmpty_iff_size, RowSet.size_positionsOf? hanswer,
          ← RowSet.not_isEmpty_iff_size, RowSet.not_isEmpty_iff]
      simp only [Except.mapError, bind, Except.bind, ← hadds, hfits, false_or]
      by_cases hfull : (!added.isEmpty) = true ∧ rowLimit ≤ keys.size
      · rw [if_pos hfull]
        exact iff_of_true ⟨_, rfl⟩ (Or.inl hfull)
      · rw [if_neg hfull, or_iff_right hfull, ← exists_lookUp_eq_error hkeys]
        cases lookUp keys m.modified with
        | error e => exact iff_of_true ⟨_, rfl⟩ ⟨_, rfl⟩
        | ok a => exact iff_of_false nofun nofun

/-- A message makes a decoder panic just by what its keys say. -/
theorem exists_bounds_eq_error (hkeys : ∀ k, k ∈ keys → k < reservedKey)
    (hadded : ∀ k, k ∈ m.added → k < reservedKey) :
    (∃ c, bounds keys m = .error c) ↔ m.Crashes keys := by
  unfold bounds
  cases hpos : keys.positionsOf m.removed with
  | error e =>
    have hover := (RowSet.exists_positionsOf_eq_error hkeys).1 ⟨e, hpos⟩
    exact iff_of_true ⟨.overflow e, rfl⟩ (.removed hover)
  | ok answer =>
    have hremoved := RowSet.not_overflows hkeys hpos
    obtain ⟨hanswer, _⟩ := RowSet.of_positionsOf_eq_ok hkeys hpos
    cases answer with
    | none =>
      have hunknown : ¬ m.RemovesKnown keys := RowSet.positionsOf?_eq_none.1 hanswer
      exact iff_of_false nofun (not_crashes_of_not_gives hremoved
        (fun hknown => absurd hknown hunknown) fun after h => hunknown h.removed)
    | some removed =>
      have hknown : m.RemovesKnown keys := (RowSet.positionsOf?_eq_some hanswer).1
      have hkept := lt_of_mem_difference hkeys m.removed
      simp only [Except.mapError, bind, Except.bind]
      cases hshift : (keys.difference m.removed).shift m.shifts with
      | error e =>
        obtain ⟨hordered, k, hk, hmove⟩ := (RowSet.exists_shift_eq_error hkept).1 ⟨e, hshift⟩
        obtain ⟨hk, hstays⟩ := RowSet.mem_difference.1 hk
        exact iff_of_true ⟨_, rfl⟩ (.shifts k hknown hordered hk hstays hmove)
      | ok answer =>
        obtain ⟨hfits, hanswer⟩ := (RowSet.shift_eq_ok hkept).1 hshift
        have hshifts : Ordered m.shifts →
            ∀ k, k ∈ keys → ¬ k ∈ m.removed → moveKey m.shifts k ≠ reservedKey :=
          fun hordered k hk hstays => hfits hordered k (RowSet.mem_difference.2 ⟨hk, hstays⟩)
        cases answer with
        | none =>
          exact iff_of_false nofun (not_crashes_of_not_gives hremoved (fun _ => hshifts)
            fun _ => not_gives_of_shift hkeys hanswer)
        | some shifted =>
          have hinorder := (exists_shifted_iff hkeys).1 ⟨shifted, hanswer⟩
          dsimp only
          by_cases hmeet : shifted.intersects m.added = true
          · rw [if_pos hmeet]
            exact iff_of_false nofun (not_crashes_of_not_gives hremoved (fun _ => hshifts)
              fun _ => not_gives_of_intersects hkeys hanswer hmeet)
          · rw [if_neg hmeet]
            have hgives := gives_of_shifted hkeys hknown hanswer fun k hk hk' =>
              hmeet (RowSet.intersects_iff.2 ⟨k, hk', hk⟩)
            have hbelow : ∀ k, k ∈ shifted.union m.added → k < reservedKey := by
              intro k hk
              rcases RowSet.mem_union.1 hk with hk | hk
              · exact RowSet.lt_reservedKey_of_shift hkept hshift hk
              · exact hadded k hk
            rw [exists_fillBounds_eq_error hbelow fun k hk => RowSet.mem_union.2 (Or.inr hk),
              crashes_iff_of_gives hremoved (hshifts hinorder.1) hgives]

/-- Keys below the reserved one stay below it, unless a decoder panics. -/
theorem Gives.lt_of_mem (h : m.Gives keys after) (hkeys : ∀ k, k ∈ keys → k < reservedKey)
    (hadded : ∀ k, k ∈ m.added → k < reservedKey) (hcalm : ¬ m.Crashes keys) (hk : k ∈ after) :
    k < reservedKey := by
  rcases (h.mem_iff k).1 hk with ⟨j, hj, hstays, rfl⟩ | hk
  · refine Nat.lt_of_le_of_ne (moveKey_le h.shifts.1 (hkeys j hj)) fun hmove => ?_
    exact hcalm (.shifts j h.removed h.shifts.1 hj hstays hmove)
  · exact hadded k hk

/-- Rows for which memory has room stay so, unless a decoder panics. -/
theorem Gives.size_lt (h : m.Gives keys after) (hkeys : ∀ k, k ∈ keys → k < reservedKey)
    (hroom : keys.size < rowLimit) (hcalm : ¬ m.Crashes keys) : after.size < rowLimit := by
  have hsize := h.size_add hkeys
  by_cases hadds : ∃ k, k ∈ m.added
  · obtain ⟨k, hk⟩ := hadds
    exact Nat.lt_of_not_le fun hlimit => hcalm (.rows after k h hk hlimit)
  · have hnone : ¬ 0 < m.added.size := by
      rwa [← RowSet.not_isEmpty_iff_size, RowSet.not_isEmpty_iff]
    omega

end UpdateMetadata
end TickingTable
