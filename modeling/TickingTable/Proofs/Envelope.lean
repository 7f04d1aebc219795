import Mathlib.Algebra.Order.Ring.Nat
import TickingTable.Arrow.List
import TickingTable.Column
import TickingTable.Proofs.Kernels
import TickingTable.Schema

/-! Which arrays make a column, on their own or as the only element of a list. -/

namespace TickingTable

namespace Arrow

/-- Lists whose elements are told by offsets. -/
def DataType.IsList : DataType → Prop
  | .list _ | .largeList _ => True
  | _ => False

theorem DataType.IsList.ofDataType?_eq_none {type : DataType} (h : type.IsList) :
    ElementType.ofDataType? type = none := by
  cases type with
  | list item => rfl
  | largeList item => rfl
  | _ => cases h

namespace AnyArray

/-- The elements of lists are there, and so are the cells of an array of a type that tables hold.
Of arrays of other types only the size need be known. -/
def Proper : AnyArray → Prop
  | .flat a => ¬ a.type.IsList
  | .blank type _ => ElementType.ofDataType? type = none ∧ ¬ type.IsList
  | .list _ _ _ values => values.Proper

/-- No element of a list is null. -/
def NoNull : AnyArray → Prop
  | .list _ _ elements _ => ∀ e ∈ elements, e.valid = true
  | _ => True

/-- An array of one list that is not null. -/
structure IsEnvelope (a : AnyArray) : Prop where
  proper : a.Proper
  isList : a.type.IsList
  size : a.size = 1
  noNull : a.NoNull

variable {a : AnyArray}

@[simp] theorem type_extract (a : AnyArray) (start n : Nat) :
    (a.extract start n).type = a.type := by
  cases a with
  | flat a => rfl
  | blank type size => rfl
  | list large masked elements values => cases large <;> rfl

theorem Proper.extract (h : a.Proper) (start n : Nat) : (a.extract start n).Proper := by
  cases a with
  | flat a => exact h
  | blank type size => exact h
  | list large masked elements values => exact h

theorem type_nulls (type : DataType) (n : Nat) : (nulls type n).type = type := by
  fun_induction nulls type n with
  | case1 n item ih => simp only [AnyArray.type, ih]
  | case2 n item ih => simp only [AnyArray.type, ih]
  | case3 => rfl
  | case4 => rfl

theorem proper_nulls (type : DataType) (n : Nat) : (nulls type n).Proper := by
  fun_induction nulls type n with
  | case1 n item ih => exact ih
  | case2 n item ih => exact ih
  | case3 type n _ _ hsome =>
    intro hlist
    have hnone : ElementType.ofDataType? type = none := hlist.ofDataType?_eq_none
    rw [hnone] at hsome
    cases hsome
  | case4 type n hlist hlarge hnone =>
    refine ⟨by simpa using hnone, ?_⟩
    cases type with
    | list item => exact absurd rfl (hlist item)
    | largeList item => exact absurd rfl (hlarge item)
    | _ => exact id

theorem extract_all (a : AnyArray) : a.extract 0 a.size = a := by
  cases a with
  | flat a => simp [extract, size, FlatArray.extract, FlatArray.size]
  | blank type n => simp [extract, size]
  | list large masked elements values => simp [extract, size]

theorem wrap_eq_ok (h : a.size < 2 ^ 31) :
    a.wrap = .ok (.list false false [⟨0, a.size, true⟩] a) :=
  kernels.lists_eq h

theorem slice_eq_ok {b : AnyArray} {offset n : Nat} (h : a.slice offset n = .ok b) :
    offset + n ≤ a.size ∧ b = a.extract offset n := by
  unfold slice at h
  split at h
  · next hle => exact ⟨hle, (Except.ok.inj h).symm⟩
  · cases h

end AnyArray
end Arrow

namespace Column

open Arrow

variable {a : AnyArray} {type : ElementType}

theorem ofFlat_of_ofDataType? {a : FlatArray} (h : ElementType.ofDataType? a.type = some type) :
    ∃ c, ofFlat a = .ok c ∧ c.type = type := by
  unfold ofFlat
  split <;> simp_all [ElementType.ofDataType?, ofCells]

theorem ofFlat_eq_error {a : FlatArray} (h : ElementType.ofDataType? a.type = none) :
    ofFlat a = .error (.unsupportedType a.type) := by
  unfold ofFlat
  split <;> simp_all [ElementType.ofDataType?]

/-- An array of a type that tables hold is a column. -/
theorem exists_ofArray (ha : a.Proper) (h : ElementType.ofDataType? a.type = some type) :
    ∃ c, ofArray a = .ok c ∧ c.type = type := by
  cases a with
  | flat a => exact ofFlat_of_ofDataType? h
  | blank t size =>
    have hnone : ElementType.ofDataType? t = none := ha.1
    rw [AnyArray.type, hnone] at h
    cases h
  | list large masked elements values => cases large <;> cases h

/-- An array of any other type is refused for its type. -/
theorem ofArray_eq_error (h : ElementType.ofDataType? a.type = none) :
    ofArray a = .error (.unsupportedType a.type) := by
  cases a with
  | flat a => exact ofFlat_eq_error h
  | blank t size => rfl
  | list large masked elements values => rfl

/-- An envelope is unwrapped to an array of the items of its list. -/
theorem ofEnvelope_eq_ofArray (ha : a.IsEnvelope) :
    ∃ payload : AnyArray, ofEnvelope a = ofArray payload ∧ payload.Proper ∧
      payload.type = Schema.payloadType a.type := by
  cases a with
  | flat a => exact absurd ha.isList ha.proper
  | blank type size => exact absurd ha.isList ha.proper.2
  | list large masked elements values =>
    obtain ⟨e, rfl⟩ := List.length_eq_one_iff.1 ha.size
    have he : e.valid = true := ha.noNull e List.mem_cons_self
    have hvalues : values.Proper := ha.proper
    refine ⟨values.extract e.start e.length, ?_, hvalues.extract _ _, ?_⟩
    · simp only [ofEnvelope, he, if_true]
    · cases large <;> exact AnyArray.type_extract values _ _

theorem of_ofFlat {a : FlatArray} {c : Column} (h : ofFlat a = .ok c) :
    ElementType.ofDataType? a.type = some c.type ∧ c.cells = a.cells := by
  unfold ofFlat at h
  split at h <;> cases h <;> simp_all [ElementType.ofDataType?, ofCells]

/-- The column has the cells in the range of an element of a list. -/
def Carries (c : Column) (e : ListElement) (values : AnyArray) : Prop :=
  ∃ v : FlatArray, values = .flat v ∧ ElementType.ofDataType? v.type = some c.type ∧
    c.cells.toList = (v.cells.toList.drop e.start).take e.length

/-- What is made of a list array: a column if there is one element, which is not null and of a type
that tables hold, and else the first of these conditions that fails. -/
structure Unwraps (values : AnyArray) (elements : List ListElement)
    (outcome : Except ColumnError Column) : Prop where
  succeeds : (∃ c, outcome = .ok c) ↔ ∃ e, elements = [e] ∧ e.valid = true ∧
    (ElementType.ofDataType? values.type).isSome = true
  carries : ∀ c, outcome = .ok c → ∃ e, elements = [e] ∧ c.Carries e values
  length : elements.length ≠ 1 → outcome = .error (.malformedFrame (.length elements.length))
  null : ∀ e, elements = [e] → e.valid = false → outcome = .error (.malformedFrame .null)
  itemType : ∀ e, elements = [e] → e.valid = true → ElementType.ofDataType? values.type = none →
    outcome = .error (.unsupportedType values.type)

theorem ofEnvelope_valid (large masked : Bool) {e : ListElement} (h : e.valid = true)
    (values : AnyArray) : ofEnvelope (.list large masked [e] values) =
      ofArray (values.extract e.start e.length) := by
  rw [ofEnvelope, if_pos h]

/-- The values of the element are the part of the array that any library cuts out. -/
theorem ofEnvelope_slice (k : Kernels) (large masked : Bool) {e : ListElement} {values : AnyArray}
    (hvalid : e.valid = true) (h : e.start + e.length ≤ values.size) :
    ∃ b, k.slice values e.start e.length = .ok b ∧
      ofEnvelope (.list large masked [e] values) = ofArray b :=
  ⟨_, k.slice_eq h, ofEnvelope_valid large masked hvalid values⟩

theorem ofEnvelope_null (large masked : Bool) {e : ListElement} (h : e.valid = false)
    (values : AnyArray) : ofEnvelope (.list large masked [e] values) =
      .error (.malformedFrame .null) := by
  rw [ofEnvelope, if_neg (by simp [h])]

theorem ofEnvelope_length (large masked : Bool) {elements : List ListElement}
    (h : elements.length ≠ 1) (values : AnyArray) :
    ofEnvelope (.list large masked elements values) =
      .error (.malformedFrame (.length elements.length)) := by
  match elements, h with
  | [], _ => rfl
  | [_], h => exact absurd rfl h
  | _ :: _ :: _, _ => rfl

theorem carries_of_ofArray {e : ListElement} {values : AnyArray} {c : Column}
    (h : ofArray (values.extract e.start e.length) = .ok c) : c.Carries e values := by
  cases values with
  | flat v =>
    obtain ⟨htype, hcells⟩ := of_ofFlat h
    refine ⟨v, rfl, htype, ?_⟩
    simp [hcells, FlatArray.extract]
  | blank type size => cases h
  | list large masked elements values => cases h

/-- The range of an element in an array of a type that tables hold is a column. -/
theorem exists_ofArray_extract {values : AnyArray} (hv : values.Proper)
    (h : (ElementType.ofDataType? values.type).isSome = true) (start n : Nat) :
    ∃ c, ofArray (values.extract start n) = .ok c := by
  obtain ⟨type, htype⟩ := Option.isSome_iff_exists.1 h
  rw [← AnyArray.type_extract values start n] at htype
  obtain ⟨c, hc, _⟩ := exists_ofArray (hv.extract start n) htype
  exact ⟨c, hc⟩

theorem unwraps_list (large masked : Bool) (elements : List ListElement) {values : AnyArray}
    (hv : values.Proper) :
    Unwraps values elements (ofEnvelope (.list large masked elements values)) := by
  -- A column leaves no other way for the array to be.
  have hcolumn : ∀ c, ofEnvelope (.list large masked elements values) = .ok c →
      ∃ e, elements = [e] ∧ e.valid = true ∧ ofArray (values.extract e.start e.length) = .ok c := by
    intro c hc
    by_cases hlength : elements.length = 1
    · obtain ⟨e, rfl⟩ := List.length_eq_one_iff.1 hlength
      cases hvalid : e.valid with
      | true =>
        rw [ofEnvelope_valid large masked hvalid] at hc
        exact ⟨e, rfl, hvalid, hc⟩
      | false =>
        rw [ofEnvelope_null large masked hvalid] at hc
        cases hc
    · rw [ofEnvelope_length large masked hlength] at hc
      cases hc
  constructor
  case succeeds =>
    constructor
    · rintro ⟨c, hc⟩
      obtain ⟨e, he, hvalid, hc⟩ := hcolumn c hc
      obtain ⟨v, rfl, htype, _⟩ := carries_of_ofArray hc
      exact ⟨e, he, hvalid, by rw [AnyArray.type, htype]; rfl⟩
    · rintro ⟨e, rfl, hvalid, htype⟩
      rw [ofEnvelope_valid large masked hvalid]
      exact exists_ofArray_extract hv htype _ _
  case carries =>
    intro c hc
    obtain ⟨e, he, _, hc⟩ := hcolumn c hc
    exact ⟨e, he, carries_of_ofArray hc⟩
  case length => exact fun hlength => ofEnvelope_length large masked hlength values
  case null =>
    rintro e rfl hvalid
    exact ofEnvelope_null large masked hvalid values
  case itemType =>
    rintro e rfl hvalid htype
    rw [ofEnvelope_valid large masked hvalid, ofArray_eq_error, AnyArray.type_extract]
    rwa [AnyArray.type_extract]

/-- Wrapping an array and unwrapping it makes no difference. Of the lists of an array, however many
values they have and whichever slice of them is taken, just one that is not null and has values of
a type that columns have can be unwrapped, to the values in its range. Other arrays are no
envelopes. -/
theorem ofEnvelope_unwraps :
    (∀ a : AnyArray, a.size < 2 ^ 31 →
      ∃ envelope, a.wrap = .ok envelope ∧ ofEnvelope envelope = ofArray a) ∧
    (∀ (large masked : Bool) (elements : List ListElement) (values envelope : AnyArray)
      (offset n : Nat), values.Proper →
        (AnyArray.list large masked elements values).slice offset n = .ok envelope →
          envelope.size = n ∧
            Unwraps values ((elements.drop offset).take n) (ofEnvelope envelope)) ∧
    ∀ a : AnyArray, ¬ a.type.IsList →
      ofEnvelope a = .error (.malformedFrame (.notAList a.type)) := by
  refine ⟨?_, ?_, ?_⟩
  · intro a ha
    refine ⟨_, AnyArray.wrap_eq_ok ha, ?_⟩
    rw [ofEnvelope_valid false false rfl, AnyArray.extract_all]
  · intro large masked elements values envelope offset n hv hslice
    obtain ⟨hle, rfl⟩ := AnyArray.slice_eq_ok hslice
    refine ⟨?_, unwraps_list large masked _ hv⟩
    simp only [AnyArray.extract, AnyArray.size, List.length_take, List.length_drop] at hle ⊢
    omega
  · intro a hlist
    cases a with
    | flat a => rfl
    | blank type size => rfl
    | list large masked elements values => cases large <;> exact absurd trivial hlist

def fourNumbers : FlatArray :=
  ⟨.int32, #[some (.int32 1), none, some (.int32 3), some (.int32 4)], by decide⟩

/-- The second of three lists holds the second and the third number, the first list is null. -/
theorem ofEnvelope_unwraps_second :
    (∃ envelope, (AnyArray.flat fourNumbers).wrap = .ok envelope ∧
      ofEnvelope envelope = ofArray (.flat fourNumbers)) ∧
    (∃ lists second : AnyArray,
      AnyArray.ofLengths true [1, 2, 1] (some [false, true, true]) (.flat fourNumbers) = .ok lists ∧
      lists.slice 1 1 = .ok second ∧
      ∃ c, ofEnvelope second = .ok c ∧ c.cells.toList = [none, some (.int32 3)]) ∧
    ofEnvelope (.flat fourNumbers) = .error (.malformedFrame (.notAList .int32)) := by
  obtain ⟨hwrap, hslice, hother⟩ := ofEnvelope_unwraps
  refine ⟨hwrap _ (by decide), ⟨_, _, rfl, rfl, ?_⟩, hother (.flat fourNumbers) id⟩
  obtain ⟨_, hunwraps⟩ := hslice true true [⟨0, 1, false⟩, ⟨1, 2, true⟩, ⟨3, 1, true⟩]
    (.flat fourNumbers) _ 1 1 id rfl
  obtain ⟨c, hc⟩ := hunwraps.succeeds.2 ⟨⟨1, 2, true⟩, rfl, rfl, rfl⟩
  obtain ⟨e, he, v, hv, _, hcells⟩ := hunwraps.carries c hc
  cases he
  cases hv
  exact ⟨c, hc, hcells⟩

end Column
end TickingTable
