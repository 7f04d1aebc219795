import TickingTable.Value

/-! The arrays that frames carry: plain arrays of cells, lists, and those that tables cannot hold. -/

namespace TickingTable.Arrow

/-- An operation on arrays that was given unsuitable arguments. -/
inductive ArrayError where
  | differentTypes (first other : DataType)
  | outOfBounds (index length : Nat)
deriving DecidableEq

def ArrayError.message : ArrayError → String
  | .differentTypes first other =>
    "Invalid argument error: It is not possible to interleave arrays of different data types (" ++
      first.text ++ " and " ++ other.text ++ ")"
  | .outOfBounds index length =>
    "index out of bounds: the len is " ++ toString length ++ " but the index is " ++ toString index

/-- The report of an unsuitable argument that nothing is there to handle. -/
def unhandled (cause : String) : String :=
  "called `Result::unwrap()` on an `Err` value: InvalidArgumentError(" ++ Quoted.text cause ++ ")"

/-- An array that is not a list. Cells of types that tables cannot hold are all null. -/
structure FlatArray where
  type : DataType
  cells : Array Cell
  typed : ∀ c ∈ cells, ∀ v ∈ c, ElementType.ofDataType? type = some v.type
deriving DecidableEq

namespace FlatArray

def size (a : FlatArray) : Nat := a.cells.size

def nulls (type : DataType) (n : Nat) : FlatArray :=
  ⟨type, Array.replicate n none, by
    intro c hc v hv
    simp [(Array.mem_replicate.1 hc).2] at hv⟩

/-- An array of the given cells, if all of them are of the type. -/
def ofCells? (type : DataType) (cells : List Cell) : Option FlatArray :=
  if h : ∀ c ∈ cells.toArray, ∀ v ∈ c, ElementType.ofDataType? type = some v.type then
    some ⟨type, cells.toArray, h⟩
  else none

/-- The `n` cells from number `start` on, or as many as there are. -/
def extract (a : FlatArray) (start n : Nat) : FlatArray :=
  ⟨a.type, a.cells.extract start (start + n), by
    intro c hc
    obtain ⟨k, hk, rfl⟩ := Array.mem_extract_iff_getElem.1 hc
    exact a.typed _ (Array.getElem_mem _)⟩

/-- Looks cells up one after the other, each by the number of its array and its place there. -/
def gather (type : DataType) (sources : Array FlatArray) (hs : ∀ a ∈ sources, a.type = type) :
    List (Nat × Nat) → Except ArrayError { l : List Cell // ∀ c ∈ l, ∀ v ∈ c,
      ElementType.ofDataType? type = some v.type }
  | [] => .ok ⟨[], by simp⟩
  | (i, row) :: indices =>
    if hi : i < sources.size then
      if hr : row < sources[i].cells.size then do
        let rest ← gather type sources hs indices
        return ⟨sources[i].cells[row] :: rest.val, by
          intro c hc v hv
          rcases List.mem_cons.1 hc with rfl | hc
          · have ht := hs sources[i] (Array.getElem_mem hi)
            exact ht ▸ sources[i].typed _ (Array.getElem_mem hr) v hv
          · exact rest.property c hc v hv⟩
      else .error (.outOfBounds row sources[i].cells.size)
    else .error (.outOfBounds i sources.size)

/-- The cells that pairs of an array and a row address. All arrays must be of one type. -/
def interleave (first : FlatArray) (others : List FlatArray) (indices : List (Nat × Nat)) :
    Except ArrayError FlatArray :=
  match ho : others.find? fun a => a.type ≠ first.type with
  | some other => .error (.differentTypes first.type other.type)
  | none => do
    let cells ← gather first.type (first :: others).toArray (by
      intro a ha
      rcases List.mem_cons.1 (List.mem_toArray.1 ha) with rfl | ha
      · rfl
      · simpa using List.find?_eq_none.1 ho a ha) indices
    return ⟨first.type, cells.val.toArray, by simpa using cells.property⟩

/-- The cells at the given rows. -/
def take (a : FlatArray) (rows : List Nat) : Except ArrayError FlatArray :=
  interleave a [] (rows.map fun row => (0, row))

end FlatArray

/-- The values that belong to one element of a list array. -/
structure ListElement where
  start : Nat
  length : Nat
  valid : Bool
deriving DecidableEq

/-- The offsets of a large list array have 64 bits, those of others 32. A masked one records which
of its elements are valid; in one that is not masked they all are. -/
inductive AnyArray where
  | flat (a : FlatArray)
  /-- An array that tables cannot hold, whose elements nothing looks at. It is of whatever type it
  says: who brings an array need not have made it here. -/
  | blank (type : DataType) (size : Nat)
  | list (large masked : Bool) (elements : List ListElement) (values : AnyArray)
deriving DecidableEq

namespace AnyArray

def type : AnyArray → DataType
  | .flat a => a.type
  | .blank type _ => type
  | .list false _ _ values => .list values.type
  | .list true _ _ values => .largeList values.type

def size : AnyArray → Nat
  | .flat a => a.size
  | .blank _ size => size
  | .list _ _ elements _ => elements.length

/-- The `n` elements from number `start` on, or as many as there are. -/
def extract (a : AnyArray) (start n : Nat) : AnyArray :=
  match a with
  | .flat a => .flat (a.extract start n)
  | .blank type size => .blank type (min n (size - start))
  | .list large masked elements values =>
    .list large masked ((elements.drop start).take n) values

/-- An array of nothing but nulls. Without an element there is nothing to mask. -/
def nulls : DataType → Nat → AnyArray
  | .list item, n => .list false (n ≠ 0) (List.replicate n ⟨0, 0, false⟩) (nulls item 0)
  | .largeList item, n => .list true (n ≠ 0) (List.replicate n ⟨0, 0, false⟩) (nulls item 0)
  | type, n =>
    if (ElementType.ofDataType? type).isSome then .flat (.nulls type n) else .blank type n

end AnyArray
end TickingTable.Arrow
