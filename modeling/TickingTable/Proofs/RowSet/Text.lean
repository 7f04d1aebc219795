import Mathlib
import TickingTable.Proofs.RowSet.Canonical
import TickingTable.RowSet.Text

/-! The text of a row set, read item by item, tells its members and nothing else. -/

namespace TickingTable

/-- What stands between two commas in the text of a row set. -/
inductive TextItem where
  | key (k : Nat)
  | range (first last : Nat)

namespace TextItem

def Holds : TextItem → Nat → Prop
  | .key a, k => k = a
  | .range first last, k => first ≤ k ∧ k ≤ last

/-- Reads a number, or two with a dash in between. -/
def ofChars? (chars : List Char) : Option TextItem :=
  match chars.splitOn '-' with
  | [number] => (String.ofList number).toNat?.map .key
  | [first, last] => do
    let first ← (String.ofList first).toNat?
    let last ← (String.ofList last).toNat?
    return .range first last
  | _ => none

/-- Reads what stands in brackets, items with commas in between. -/
def ofText? (text : String) : Option (List TextItem) :=
  match text.toList with
  | '[' :: chars =>
    if chars = [']'] then some []
    else if chars.getLast? = some ']' then (chars.dropLast.splitOn ',').mapM ofChars?
    else none
  | _ => none

end TextItem

namespace Interval

variable {i : Interval} {l : List Interval} {k : Nat}

/-- The interval as it is written: one key, or the first and the last of several. -/
def item (i : Interval) : TextItem :=
  if i.size = 1 then .key i.lo else .range i.lo (i.hi - 1)

theorem holds_item (h : i.lo < i.hi) : i.item.Holds k ↔ i.lo ≤ k ∧ k < i.hi := by
  unfold item size
  by_cases hone : i.hi - i.lo = 1
  · rw [if_pos hone, TextItem.Holds]
    omega
  · rw [if_neg hone, TextItem.Holds]
    omega

theorem not_mem_numeral {c : Char} (hc : c.isDigit = false) (n : Nat) :
    c ∉ (toString n).toList := by
  intro hmem
  have hdigit := Nat.isDigit_of_mem_toDigits (by decide) (by decide) (Nat.toList_repr ▸ hmem)
  rw [hc] at hdigit
  cases hdigit

theorem toNat?_numeral (n : Nat) : (String.ofList (toString n).toList).toNat? = some n := by
  rw [String.ofList_toList]
  exact Nat.toNat?_repr n

theorem toList_text_one (h : i.size = 1) : i.text.toList = (toString i.lo).toList := by
  rw [text, if_pos h]

theorem toList_text_more (h : i.size ≠ 1) :
    i.text.toList = (toString i.lo).toList ++ '-' :: (toString (i.hi - 1)).toList := by
  rw [text, if_neg h, String.toList_append, String.toList_append, List.append_assoc]
  rfl

theorem comma_not_mem_text (i : Interval) : ',' ∉ i.text.toList := by
  have hnumeral := not_mem_numeral (c := ',') rfl
  by_cases hone : i.size = 1
  · rw [toList_text_one hone]
    exact hnumeral i.lo
  · rw [toList_text_more hone, List.mem_append, List.mem_cons]
    rintro (hlo | hdash | hhi)
    · exact hnumeral i.lo hlo
    · exact absurd hdash (by decide)
    · exact hnumeral (i.hi - 1) hhi

theorem ofChars?_text (i : Interval) : TextItem.ofChars? i.text.toList = some i.item := by
  have hdash := not_mem_numeral (c := '-') rfl
  unfold TextItem.ofChars? item
  by_cases hone : i.size = 1
  · rw [toList_text_one hone, List.splitOn_eq_singleton (hdash i.lo), if_pos hone]
    simp only [toNat?_numeral, Option.map_some]
  · rw [toList_text_more hone, List.splitOn_append_cons_self_of_not_mem (hdash i.lo),
      List.splitOn_eq_singleton (hdash (i.hi - 1)), if_neg hone]
    simp only [toNat?_numeral]
    rfl

theorem text_ne_nil (i : Interval) : i.text.toList ≠ [] := by
  have hnumeral : (toString i.lo).toList ≠ [] := by
    have hdigits : (toString i.lo).toList = Nat.toDigits 10 i.lo := Nat.toList_repr
    rw [hdigits]
    exact Nat.toDigits_ne_nil
  by_cases hone : i.size = 1
  · rw [toList_text_one hone]
    exact hnumeral
  · rw [toList_text_more hone]
    exact List.append_ne_nil_of_left_ne_nil hnumeral _

theorem mapM_ofChars?_text (l : List Interval) :
    (l.map fun i => i.text.toList).mapM TextItem.ofChars? = some (l.map item) := by
  induction l with
  | nil => rfl
  | cons i l ih => simp [ofChars?_text, ih]

end Interval

namespace RowSet

variable {r s : RowSet}

theorem toList_text (r : RowSet) : r.text.toList =
    '[' :: ([','].intercalate (r.intervals.map fun i => i.text.toList) ++ [']']) := by
  rw [text, String.toList_append, String.toList_append, String.toList_intercalate, List.map_map]
  rfl

/-- The intervals of a set are read back from its text. -/
theorem ofText?_text (r : RowSet) :
    TextItem.ofText? r.text = some (r.intervals.map Interval.item) := by
  rw [TextItem.ofText?, toList_text]
  cases hl : r.intervals with
  | nil => rfl
  | cons i l =>
    have hsplit : ([','].intercalate ((i :: l).map fun i => i.text.toList)).splitOn ',' =
        (i :: l).map fun i => i.text.toList := by
      apply List.splitOn_intercalate
      · intro chars hchars
        obtain ⟨j, _, rfl⟩ := List.mem_map.1 hchars
        exact j.comma_not_mem_text
      · simp
    generalize [','].intercalate ((i :: l).map fun i => i.text.toList) = body at hsplit
    -- No item is empty, so brackets around items are not taken for those around none.
    have hbody : body ≠ [] := by
      rintro rfl
      exact i.text_ne_nil (List.cons.inj hsplit).1.symm
    have hbrackets : ¬ body ++ [']'] = [']'] := by simpa using hbody
    simp only [hbrackets, if_false, List.getLast?_concat, if_true, List.dropLast_concat, hsplit,
      Interval.mapM_ofChars?_text]

theorem exists_holds_iff {k : Nat} :
    (∃ item ∈ r.intervals.map Interval.item, item.Holds k) ↔ k ∈ r := by
  constructor
  · rintro ⟨_, hitem, hholds⟩
    obtain ⟨i, hi, rfl⟩ := List.mem_map.1 hitem
    exact ⟨i, hi, (Interval.holds_item (r.canonical.1 i hi)).1 hholds⟩
  · rintro ⟨i, hi, hin⟩
    exact ⟨i.item, List.mem_map_of_mem hi, (Interval.holds_item (r.canonical.1 i hi)).2 hin⟩

/-- Two sets have the same text just if they have the same members, which are those that the items
of the text hold. -/
theorem text_tells_members (r s : RowSet) :
    (r.text = s.text ↔ ∀ k, k ∈ r ↔ k ∈ s) ∧
    ∃ items, TextItem.ofText? r.text = some items ∧ ∀ k, k ∈ r ↔ ∃ item ∈ items, item.Holds k := by
  refine ⟨⟨?_, ?_⟩, r.intervals.map Interval.item, ofText?_text r, fun k => exists_holds_iff.symm⟩
  · intro h k
    have hitems := congrArg TextItem.ofText? h
    rw [ofText?_text, ofText?_text, Option.some.injEq] at hitems
    rw [← exists_holds_iff, ← exists_holds_iff, hitems]
  · intro h
    rw [eq_iff_mem.2 h]

end RowSet
end TickingTable
