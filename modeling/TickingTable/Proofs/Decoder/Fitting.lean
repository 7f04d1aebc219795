import TickingTable.Proofs.Decoder.Apply

/-! Which messages fit the keys of a table, and what is wrong with the others. -/

namespace TickingTable
namespace UpdateMetadata

open ShiftRange

variable {m : UpdateMetadata} {keys modified : RowSet} {e e' : ProtocolError} {k : Nat}

/-- The shifts move a key to `k` that the message does not remove. -/
def Keeps (m : UpdateMetadata) (keys : RowSet) (k : Nat) : Prop :=
  ∃ j, j ∈ keys ∧ ¬ j ∈ m.removed ∧ moveKey m.shifts j = k

def RemovesKnown (m : UpdateMetadata) (keys : RowSet) : Prop := ∀ k, k ∈ m.removed → k ∈ keys

/-- The ranges are in order, and so are the keys that they move. -/
def ShiftsInOrder (m : UpdateMetadata) (keys : RowSet) : Prop :=
  Ordered m.shifts ∧ ∀ j k, j ∈ keys → ¬ j ∈ m.removed → k ∈ keys → ¬ k ∈ m.removed → j < k →
    moveKey m.shifts j < moveKey m.shifts k

def AddsNew (m : UpdateMetadata) (keys : RowSet) : Prop := ∀ k, k ∈ m.added → ¬ m.Keeps keys k

def ModifiesKnown (m : UpdateMetadata) (keys modified : RowSet) : Prop :=
  ∀ k, k ∈ modified → m.Keeps keys k ∨ k ∈ m.added

/-- What a message asks of the keys of a table. -/
structure Fits (m : UpdateMetadata) (keys : RowSet) : Prop where
  removed : m.RemovesKnown keys
  shifts : m.ShiftsInOrder keys
  added : m.AddsNew keys
  modified : ∀ modified ∈ m.modified, m.ModifiesKnown keys modified

/-- The error that names the first thing in which a message does not fit, where the columns are
asked one after the other. -/
inductive Misfit (m : UpdateMetadata) (keys : RowSet) : ProtocolError → Prop
  | removed : ¬ m.RemovesKnown keys → Misfit m keys .removedRowNotFound
  | shifts : m.RemovesKnown keys → ¬ m.ShiftsInOrder keys → Misfit m keys .invalidShifts
  | added : m.RemovesKnown keys → m.ShiftsInOrder keys → ¬ m.AddsNew keys →
    Misfit m keys .addedRowExists
  | modified (c : Nat) (modified : RowSet) : m.RemovesKnown keys → m.ShiftsInOrder keys →
    m.AddsNew keys → m.modified[c]? = some modified → ¬ m.ModifiesKnown keys modified →
    (∀ i < c, ∀ earlier, m.modified[i]? = some earlier → m.ModifiesKnown keys earlier) →
    Misfit m keys (.modifiedRowNotFound c)

theorem Fits.not_misfit (h : m.Fits keys) : ¬ m.Misfit keys e := by
  intro hm
  cases hm with
  | removed hno => exact hno h.removed
  | shifts _ hno => exact hno h.shifts
  | added _ _ hno => exact hno h.added
  | modified c modified _ _ _ hc hno _ => exact hno (h.modified modified (List.mem_of_getElem? hc))

theorem Misfit.unique (h : m.Misfit keys e) (h' : m.Misfit keys e') : e = e' := by
  cases h with
  | removed hno => cases h' with
    | removed => rfl
    | _ => contradiction
  | shifts => cases h' with
    | shifts => rfl
    | _ => contradiction
  | added => cases h' with
    | added => rfl
    | _ => contradiction
  | modified c modified _ _ _ hc hno hfirst => cases h' with
    | modified c' modified' _ _ _ hc' hno' hfirst' =>
      rcases Nat.lt_trichotomy c c' with hlt | rfl | hlt
      · exact absurd (hfirst' c hlt modified hc) hno
      · rfl
      · exact absurd (hfirst c' hlt modified' hc') hno'
    | _ => contradiction

section Refusal

variable {shifted : RowSet} (hkeys : ∀ k, k ∈ keys → k < reservedKey)

include hkeys

theorem lt_of_mem_difference (r : RowSet) (k : Nat) (hk : k ∈ keys.difference r) :
    k < reservedKey := hkeys k (RowSet.mem_difference.1 hk).1

theorem exists_shifted_iff :
    (∃ shifted, (keys.difference m.removed).shift? m.shifts = some shifted) ↔
      m.ShiftsInOrder keys := by
  rw [RowSet.exists_shift?_iff (lt_of_mem_difference hkeys _), ShiftsInOrder]
  simp only [RowSet.mem_difference, and_imp]

theorem mem_shifted (hshift : (keys.difference m.removed).shift? m.shifts = some shifted) :
    k ∈ shifted ↔ m.Keeps keys k := by
  rw [RowSet.mem_shift? (lt_of_mem_difference hkeys _) hshift, Keeps]
  simp only [RowSet.mem_difference, and_assoc]

theorem modifiesKnown_iff (hshift : (keys.difference m.removed).shift? m.shifts = some shifted) :
    m.ModifiesKnown keys modified ↔ ∀ k, k ∈ modified → k ∈ shifted.union m.added := by
  simp only [RowSet.mem_union, mem_shifted hkeys hshift, ModifiesKnown]

theorem addsNew_iff (hshift : (keys.difference m.removed).shift? m.shifts = some shifted) :
    m.AddsNew keys ↔ ∀ k, k ∈ m.added → ¬ k ∈ shifted := by
  simp only [mem_shifted hkeys hshift, AddsNew]

theorem fits_of_refusal? (h : m.refusal? keys = none) : m.Fits keys := by
  obtain ⟨hremoved, shifted, hshift, hadded, hmodified⟩ := refusal?_eq_none.1 h
  exact ⟨hremoved, (exists_shifted_iff hkeys).1 ⟨shifted, hshift⟩,
    (addsNew_iff hkeys hshift).2 hadded,
    fun modified hm => (modifiesKnown_iff hkeys hshift).2 (hmodified modified hm)⟩

theorem misfit_of_refusal? (h : m.refusal? keys = some e) : m.Misfit keys e := by
  unfold refusal? at h
  split at h
  · next hremoved =>
    have hremoved : m.RemovesKnown keys := fun k hk => hremoved k (RowSet.mem_toList.2 hk)
    split at h
    · next hshift =>
      cases h
      refine .shifts hremoved fun hno => ?_
      obtain ⟨shifted, hsome⟩ := (exists_shifted_iff hkeys).2 hno
      rw [hshift] at hsome
      cases hsome
    · next shifted hshift =>
      have hshifts := (exists_shifted_iff hkeys).1 ⟨shifted, hshift⟩
      split at h
      · next hadded =>
        have hadded : m.AddsNew keys :=
          (addsNew_iff hkeys hshift).2 fun k hk => hadded k (RowSet.mem_toList.2 hk)
        obtain ⟨c, hunknown, rfl⟩ := Option.map_eq_some_iff.1 h
        obtain ⟨i, rfl, ⟨modified, hi, hno⟩, hearlier⟩ := firstUnknown?_eq_some hunknown
        rw [Nat.zero_add]
        refine .modified i modified hremoved hshifts hadded hi ?_ ?_
        · rwa [modifiesKnown_iff hkeys hshift]
        · intro j hj earlier he
          exact (modifiesKnown_iff hkeys hshift).2 (hearlier j hj earlier he)
      · next hold =>
        cases h
        refine .added hremoved hshifts fun hno => hold fun k hk => ?_
        exact (addsNew_iff hkeys hshift).1 hno k (RowSet.mem_toList.1 hk)
  · next hold =>
    cases h
    exact .removed fun hno => hold fun k hk => hno k (RowSet.mem_toList.1 hk)

end Refusal
end UpdateMetadata
end TickingTable
