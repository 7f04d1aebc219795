import TickingTable.Arrow.Array

/-! Columns of cells of one type, and the envelopes in which streams send them. -/

namespace TickingTable

open Arrow

/-- Why an array is no envelope of a column. -/
inductive EnvelopeFault where
  | notAList (type : DataType)
  | length (n : Nat)
  | null
deriving DecidableEq

def EnvelopeFault.message : EnvelopeFault → String
  | .notAList type => "expected a list envelope, got " ++ type.text
  | .length n => "expected envelope of length 1, got " ++ toString n
  | .null => "envelope is null"

inductive ColumnError where
  | malformedFrame (fault : EnvelopeFault)
  | unsupportedType (type : DataType)
deriving DecidableEq

def ColumnError.message : ColumnError → String
  | .malformedFrame fault => "malformed frame: " ++ fault.message
  | .unsupportedType type => "unsupported column type " ++ type.text

structure RowOutOfBounds where
  row : Nat
  size : Nat
deriving DecidableEq

def RowOutOfBounds.message (e : RowOutOfBounds) : String :=
  "row " ++ toString e.row ++ " out of bounds for a column of length " ++ toString e.size

structure Column where
  type : ElementType
  cells : Array Cell
  typed : ∀ c ∈ cells, c.HasType type
deriving DecidableEq

namespace Column

def empty (type : ElementType) : Column := ⟨type, #[], by simp⟩

def size (c : Column) : Nat := c.cells.size

def isEmpty (c : Column) : Bool := c.size = 0

def nullCount (c : Column) : Nat := c.cells.countP Option.isNone

def cell (c : Column) (row : Nat) : Except RowOutOfBounds Cell :=
  if h : row < c.cells.size then .ok c.cells[row] else .error ⟨row, c.cells.size⟩

/-- The column as an array, whose type has no time zone. -/
def toFlat (c : Column) : FlatArray :=
  ⟨c.type.dataType, c.cells, by
    intro cell hc v hv
    rw [c.typed cell hc v hv]
    cases c.type <;> rfl⟩

def ofCells (a : FlatArray) (type : ElementType) (h : ElementType.ofDataType? a.type = some type) :
    Column :=
  ⟨type, a.cells, fun c hc v hv => Option.some.inj ((a.typed c hc v hv).symm.trans h)⟩

/-- The column of an array of one of the ten supported types. The time zone of a timestamp is
dropped. -/
def ofFlat (a : FlatArray) : Except ColumnError Column :=
  match h : a.type with
  | .uint16 => .ok (ofCells a .char (by rw [h]; rfl))
  | .int8 => .ok (ofCells a .int8 (by rw [h]; rfl))
  | .int16 => .ok (ofCells a .int16 (by rw [h]; rfl))
  | .int32 => .ok (ofCells a .int32 (by rw [h]; rfl))
  | .int64 => .ok (ofCells a .int64 (by rw [h]; rfl))
  | .float32 => .ok (ofCells a .float (by rw [h]; rfl))
  | .float64 => .ok (ofCells a .double (by rw [h]; rfl))
  | .boolean => .ok (ofCells a .bool (by rw [h]; rfl))
  | .utf8 => .ok (ofCells a .string (by rw [h]; rfl))
  | .timestamp .nanosecond _ => .ok (ofCells a .timestamp (by rw [h]; rfl))
  | type => .error (.unsupportedType type)

def ofArray : AnyArray → Except ColumnError Column
  | .flat a => ofFlat a
  | a => .error (.unsupportedType a.type)

/-- Unwraps a column sent as the only element of a list. -/
def ofEnvelope : AnyArray → Except ColumnError Column
  | .flat a => .error (.malformedFrame (.notAList a.type))
  | .blank type _ => .error (.malformedFrame (.notAList type))
  | .list _ _ [e] values =>
    if e.valid then ofArray (values.extract e.start e.length)
    else .error (.malformedFrame .null)
  | .list _ _ elements _ => .error (.malformedFrame (.length elements.length))

end Column

end TickingTable
