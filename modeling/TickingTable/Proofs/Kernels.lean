import Mathlib.Algebra.Order.Ring.Nat
import Mathlib.Data.List.Basic
import TickingTable.Arrow.Batch
import TickingTable.Arrow.List
import TickingTable.Arrow.Slice

/-! What is relied on of the operations on arrays. It is documented of the library that has them,
and the operations here do the same wherever it says what they do. -/

namespace TickingTable.Arrow

/-- The cell that an array and a row there address, if it is there. -/
def addressed? (arrays : List FlatArray) (p : Nat × Nat) : Option Cell :=
  arrays[p.1]?.bind fun a => a.cells[p.2]?

/-- The second array is that part of the first which begins with element `start` and has `n`
elements, or as many as there are. -/
def AnyArray.Part (start n : Nat) : AnyArray → AnyArray → Prop
  | .flat a, b => ∃ c : FlatArray, b = .flat c ∧ c.type = a.type ∧
      c.cells.toList = (a.cells.toList.drop start).take n
  | .blank type size, b => b = .blank type (min n (size - start))
  | .list large masked elements values, b =>
    b = .list large masked ((elements.drop start).take n) values

/-- Operations on arrays of which what is documented holds. Nothing is said of what they do where
arrays are of different types, cells are not there, a part does not lie within its array or lists
have too few values. -/
structure Kernels where
  interleave : FlatArray → List FlatArray → List (Nat × Nat) → Except ArrayError FlatArray
  take : FlatArray → List Nat → Except ArrayError FlatArray
  slice : AnyArray → Nat → Nat → Except SliceError AnyArray
  lists : Bool → List Nat → Option (List Bool) → AnyArray → Except ListError AnyArray
  batch : List (String × DataType) → List AnyArray → Nat → Except BatchError RecordBatch
  /-- Arrays of one type are interleaved to an array of that type with the cells addressed. -/
  interleaved : ∀ first others indices cells, (∀ a ∈ others, a.type = first.type) →
    indices.map (addressed? (first :: others)) = cells.map some →
      ∃ a, interleave first others indices = .ok a ∧ a.type = first.type ∧ a.cells.toList = cells
  /-- Taking rows gives an array of the same type with their cells. -/
  taken : ∀ a rows cells, rows.map (fun row => a.cells[row]?) = cells.map some →
    ∃ b, take a rows = .ok b ∧ b.type = a.type ∧ b.cells.toList = cells
  /-- Every part that lies within an array can be cut out. -/
  sliced : ∀ a start n, start + n ≤ a.size → ∃ b, slice a start n = .ok b ∧ a.Part start n b
  /-- Lists of the given lengths take their values one after the other, if there are enough of them
  and offsets can count them. -/
  listed : ∀ large lengths valid a, lengths.sum < offsetBound large → lengths.sum ≤ a.size →
    (∀ marks ∈ valid, marks.length = lengths.length) →
      ∃ elements, lists large lengths valid a = .ok (.list large valid.isSome elements a) ∧
        elements.map ListElement.length = lengths ∧
        elements.map ListElement.valid = valid.getD (lengths.map fun _ => true) ∧
        ∀ (i : Nat) (e : ListElement), elements[i]? = some e → e.start = (lengths.take i).sum
  /-- A batch has a column of its type for each field, all with the given number of rows. -/
  batched : ∀ fields columns rows b, batch fields columns rows = .ok b ↔
    columns.map AnyArray.type = fields.map Prod.snd ∧ (∀ a ∈ columns, a.size = rows) ∧
      b = ⟨fields, columns, rows⟩

namespace FlatArray

variable {type : DataType} {first a b : FlatArray} {others : List FlatArray} {l : List Cell}
  {indices : List (Nat × Nat)}

theorem ext_cells (ht : a.type = b.type) (hc : a.cells.toList = b.cells.toList) : a = b := by
  obtain ⟨_, ⟨_⟩, _⟩ := a
  obtain ⟨_, ⟨_⟩, _⟩ := b
  simp_all

/-- Gathering cells that are all there gives these cells. -/
theorem gather_eq_ok {sources : List FlatArray} (hs : ∀ a ∈ sources.toArray, a.type = type)
    (h : indices.map (addressed? sources) = l.map some) :
    ∃ hl, gather type sources.toArray hs indices = .ok ⟨l, hl⟩ := by
  induction indices generalizing l with
  | nil =>
    obtain rfl : l = [] := by simpa using h.symm
    exact ⟨by simp, rfl⟩
  | cons p indices ih =>
    obtain ⟨i, row⟩ := p
    cases l with
    | nil => simp at h
    | cons c l =>
      simp only [List.map_cons, List.cons.injEq] at h
      obtain ⟨hcell, hrest⟩ := h
      obtain ⟨a, ha, hrow⟩ := Option.bind_eq_some_iff.1 hcell
      rw [← List.getElem?_toArray] at ha
      obtain ⟨hi, rfl⟩ := Array.getElem?_eq_some_iff.1 ha
      obtain ⟨hr, rfl⟩ := Array.getElem?_eq_some_iff.1 hrow
      obtain ⟨hl, hg⟩ := ih hrest
      refine ⟨?_, ?_⟩
      · intro c hc v hv
        rcases List.mem_cons.1 hc with rfl | hc
        · have ht := hs sources.toArray[i] (Array.getElem_mem hi)
          exact ht ▸ sources.toArray[i].typed _ (Array.getElem_mem hr) v hv
        · exact hl c hc v hv
      · simp only [gather, hi, hr, dif_pos, hg]
        rfl

theorem interleave_eq_ok (ht : ∀ a ∈ others, a.type = first.type)
    (h : indices.map (addressed? (first :: others)) = l.map some) :
    ∃ a, interleave first others indices = .ok a ∧ a.type = first.type ∧ a.cells.toList = l := by
  unfold interleave
  split
  · next other ho =>
    have hne := List.find?_some ho
    have := ht other (List.mem_of_find?_eq_some ho)
    simp_all
  · have hs : ∀ a ∈ (first :: others).toArray, a.type = first.type := by
      intro a ha
      rcases List.mem_cons.1 (List.mem_toArray.1 ha) with rfl | ha
      · rfl
      · exact ht a ha
    obtain ⟨hl, hg⟩ := gather_eq_ok hs h
    rw [hg]
    exact ⟨_, rfl, rfl, by simp⟩

theorem take_eq_ok {rows : List Nat} (h : rows.map (fun row => a.cells[row]?) = l.map some) :
    ∃ b, a.take rows = .ok b ∧ b.type = a.type ∧ b.cells.toList = l := by
  apply interleave_eq_ok (by simp)
  rw [List.map_map]
  exact h

end FlatArray

namespace AnyArray

variable {a b : AnyArray} {start n : Nat}

theorem part_extract (a : AnyArray) (start n : Nat) : a.Part start n (a.extract start n) := by
  cases a with
  | flat a => exact ⟨_, rfl, rfl, by simp [FlatArray.extract]⟩
  | blank type size => rfl
  | list large masked elements values => rfl

/-- There is but one such part. -/
theorem Part.eq_extract (h : a.Part start n b) : b = a.extract start n := by
  cases a with
  | flat a =>
    obtain ⟨c, rfl, htype, hcells⟩ := h
    refine congrArg AnyArray.flat (FlatArray.ext_cells htype (hcells.trans ?_))
    simp [FlatArray.extract]
  | blank type size => exact h
  | list large masked elements values => exact h

theorem slice_of_le (h : start + n ≤ a.size) : a.slice start n = .ok (a.extract start n) :=
  if_pos h

end AnyArray

namespace ListElement

theorem map_length_ofLengths (start : Nat) (l : List (Nat × Bool)) :
    (ofLengths start l).map ListElement.length = l.map Prod.fst := by
  induction l generalizing start with
  | nil => rfl
  | cons p l ih => simp only [ofLengths, List.map_cons, ih]

theorem map_valid_ofLengths (start : Nat) (l : List (Nat × Bool)) :
    (ofLengths start l).map ListElement.valid = l.map Prod.snd := by
  induction l generalizing start with
  | nil => rfl
  | cons p l ih => simp only [ofLengths, List.map_cons, ih]

/-- Each element starts where those before it end. -/
theorem start_of_mem_ofLengths {start i : Nat} {l : List (Nat × Bool)} {e : ListElement}
    (h : (ofLengths start l)[i]? = some e) :
    e.start = start + ((l.map Prod.fst).take i).sum := by
  induction l generalizing start i with
  | nil => simp [ofLengths] at h
  | cons p l ih =>
    cases i with
    | zero =>
      obtain rfl : _ = e := by simpa [ofLengths] using h
      simp
    | succ i =>
      rw [ih (by simpa [ofLengths] using h)]
      simp [Nat.add_assoc]

end ListElement

theorem AnyArray.exists_ofLengths {large : Bool} {lengths : List Nat} {valid : Option (List Bool)}
    {a : AnyArray} (hoffset : lengths.sum < offsetBound large) (hvalues : lengths.sum ≤ a.size)
    (hvalid : ∀ marks ∈ valid, marks.length = lengths.length) :
    ∃ elements, a.ofLengths large lengths valid = .ok (.list large valid.isSome elements a) ∧
      elements.map ListElement.length = lengths ∧
      elements.map ListElement.valid = valid.getD (lengths.map fun _ => true) ∧
      ∀ (i : Nat) (e : ListElement), elements[i]? = some e → e.start = (lengths.take i).sum := by
  have hmarks : (valid.getD (lengths.map fun _ => true)).length = lengths.length := by
    cases valid with
    | none => simp
    | some marks => exact hvalid marks rfl
  have hword : lengths.sum < UInt64.size := by
    refine Nat.lt_trans hoffset ?_
    cases large <;> decide
  refine ⟨ListElement.ofLengths 0 (lengths.zip (valid.getD (lengths.map fun _ => true))),
    ?_, ?_, ?_, ?_⟩
  · rw [ofLengths, ← List.sum_eq_foldl, if_neg (Nat.not_le.2 hword), if_neg (Nat.not_le.2 hoffset),
      if_neg (Nat.not_lt.2 hvalues), if_neg (not_not.2 hmarks)]
  · rw [ListElement.map_length_ofLengths, List.map_fst_zip hmarks.ge]
  · rw [ListElement.map_valid_ofLengths, List.map_snd_zip hmarks.le]
  · intro i e he
    rw [ListElement.start_of_mem_ofLengths he, List.map_fst_zip hmarks.ge, Nat.zero_add]

namespace RecordBatch

variable {fields : List (String × DataType)} {columns : List AnyArray} {rows index : Nat}
  {b : RecordBatch}

theorem mismatch?_eq_none (hl : columns.length = fields.length) :
    mismatch? index columns fields = none ↔ columns.map AnyArray.type = fields.map Prod.snd := by
  induction columns generalizing fields index with
  | nil =>
    obtain rfl : fields = [] := by simpa using hl.symm
    simp [mismatch?]
  | cons a columns ih =>
    obtain ⟨field, fields, rfl⟩ := List.exists_cons_of_length_eq_add_one hl.symm
    by_cases ha : a.type = field.2
    · simp [mismatch?, ha, ih (Nat.succ.inj hl)]
    · simp [mismatch?, ha]

theorem create_eq_ok :
    create fields columns rows = .ok b ↔
      columns.map AnyArray.type = fields.map Prod.snd ∧ (∀ a ∈ columns, a.size = rows) ∧
        b = ⟨fields, columns, rows⟩ := by
  unfold create
  by_cases hl : columns.length = fields.length
  · have hany : columns.any (fun a => a.size ≠ rows) = true ↔ ¬ ∀ a ∈ columns, a.size = rows := by
      simp
    by_cases hrows : ∀ a ∈ columns, a.size = rows
    · rw [if_neg (not_not.2 hl), if_neg (fun h => hany.1 h hrows)]
      cases hm : mismatch? 0 columns fields with
      | none =>
        have htypes := (mismatch?_eq_none hl).1 hm
        exact ⟨fun h => ⟨htypes, hrows, (Except.ok.inj h).symm⟩, fun h => congrArg _ h.2.2.symm⟩
      | some e =>
        have hne := mt (mismatch?_eq_none hl).2 (by rw [hm]; exact Option.some_ne_none e)
        exact ⟨nofun, fun h => absurd h.1 hne⟩
    · rw [if_neg (not_not.2 hl), if_pos (hany.2 hrows)]
      exact ⟨nofun, fun h => absurd h.2.1 hrows⟩
  · rw [if_pos hl]
    refine ⟨nofun, fun h => absurd ?_ hl⟩
    simpa using congrArg List.length h.1

end RecordBatch

/-- The operations here. -/
def kernels : Kernels where
  interleave := FlatArray.interleave
  take := FlatArray.take
  slice := AnyArray.slice
  lists large lengths valid a := a.ofLengths large lengths valid
  batch := RecordBatch.create
  interleaved _ _ _ _ ht h := FlatArray.interleave_eq_ok ht h
  taken _ _ _ h := FlatArray.take_eq_ok h
  sliced a start n h := ⟨_, AnyArray.slice_of_le h, a.part_extract start n⟩
  listed _ _ _ _ hoffset hvalues hvalid := AnyArray.exists_ofLengths hoffset hvalues hvalid
  batched _ _ _ _ := RecordBatch.create_eq_ok

namespace Kernels

/-- Whatever library has the operations, they cut out the same part. -/
theorem slice_eq (k : Kernels) {a : AnyArray} {start n : Nat} (h : start + n ≤ a.size) :
    k.slice a start n = .ok (a.extract start n) := by
  obtain ⟨b, hb, hpart⟩ := k.sliced a start n h
  rw [hb, hpart.eq_extract]

/-- A list that holds all of an array. -/
theorem lists_eq (k : Kernels) {a : AnyArray} (h : a.size < 2 ^ 31) :
    k.lists false [a.size] none a = .ok (.list false false [⟨0, a.size, true⟩] a) := by
  have hsum : [a.size].sum = a.size := List.sum_singleton
  obtain ⟨elements, hlists, hlengths, hvalid, hstart⟩ :=
    k.listed false [a.size] none a (hsum.symm ▸ h) hsum.le (by simp)
  obtain ⟨⟨start, length, valid⟩, rfl⟩ : ∃ e, elements = [e] :=
    List.length_eq_one_iff.1 (by simpa using congrArg List.length hlengths)
  obtain rfl : length = a.size := by simpa using hlengths
  obtain rfl : valid = true := by simpa using hvalid
  obtain rfl : start = 0 := hstart 0 _ rfl
  exact hlists

end Kernels
end TickingTable.Arrow
