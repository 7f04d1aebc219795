import TickingTable.Arrow.Batch
import TickingTable.Column
import TickingTable.Schema

/-! Tables: one column for each column of a schema, all of one length. -/

namespace TickingTable

inductive TableError where
  | columnCount (expected actual : Nat)
  | columnType (column : Nat) (expected actual : ElementType)
  | columnLength (column expected actual : Nat)
deriving DecidableEq

def TableError.message : TableError → String
  | .columnCount expected actual =>
    "expected " ++ toString expected ++ " columns, got " ++ toString actual
  | .columnType column expected actual =>
    "column " ++ toString column ++ " has type " ++ actual.name ++ ", the schema says " ++
      expected.name
  | .columnLength column expected actual =>
    "column " ++ toString column ++ " has " ++ toString actual ++ " rows, expected " ++
      toString expected

/-- Reading a cell that is not there. -/
inductive CellError where
  | column (index count : Nat)
  | row (e : RowOutOfBounds)
deriving DecidableEq

def CellError.message : CellError → String
  | .column index count =>
    "index out of bounds: the len is " ++ toString count ++ " but the index is " ++ toString index
  | .row e => e.message

structure Table where
  schema : Schema
  columns : List Column
  rows : Nat
  types_eq : columns.map Column.type = schema.types
  sizes_eq : ∀ c ∈ columns, c.size = rows
deriving DecidableEq

namespace Table

/-- The table without rows. -/
def empty (schema : Schema) : Table where
  schema := schema
  columns := schema.types.map Column.empty
  rows := 0
  types_eq := by simp [Function.comp_def, Column.empty]
  sizes_eq := by simp [Column.empty, Column.size]

/-- The first column from number `index` on that has not the type or the number of rows it should. -/
def misfit? (rows index : Nat) : List Column → List ElementType → Option TableError
  | c :: columns, type :: types =>
    if c.type ≠ type then some (.columnType index type c.type)
    else if c.size ≠ rows then some (.columnLength index rows c.size)
    else misfit? rows (index + 1) columns types
  | _, _ => none

theorem fits_of_misfit?_eq_none {rows index : Nat} {columns : List Column}
    {types : List ElementType} (hl : columns.length = types.length)
    (h : misfit? rows index columns types = none) :
    columns.map Column.type = types ∧ ∀ c ∈ columns, c.size = rows := by
  induction columns generalizing index types with
  | nil => cases types <;> simp_all
  | cons c columns ih =>
    cases types with
    | nil => simp at hl
    | cons type types =>
      simp only [misfit?] at h
      split at h
      · simp at h
      · next ht =>
        split at h
        · simp at h
        · next hs =>
          have := ih (by simpa using hl) h
          simp_all

/-- A table with a given number of rows, which need not be told by a column. -/
def ofColumns (schema : Schema) (columns : List Column) (rows : Nat) : Except TableError Table :=
  if hl : columns.length = schema.types.length then
    match h : misfit? rows 0 columns schema.types with
    | some e => .error e
    | none =>
      .ok ⟨schema, columns, rows, (fits_of_misfit?_eq_none hl h).1, (fits_of_misfit?_eq_none hl h).2⟩
  else .error (.columnCount schema.size columns.length)

/-- A table with the rows of its first column, or with none if there are no columns. -/
def ofColumnsOnly (schema : Schema) (columns : List Column) : Except TableError Table :=
  ofColumns schema columns (columns.head?.elim 0 Column.size)

def cell (t : Table) (row column : Nat) : Except CellError Cell :=
  match t.columns[column]? with
  | none => .error (.column column t.columns.length)
  | some c => match c.cell row with
    | .ok cell => .ok cell
    | .error e => .error (.row e)

def column? (t : Table) (index : Nat) : Option Column := t.columns[index]?

def columnNamed? (t : Table) (name : String) (strict : Bool) :
    Except SchemaError (Option Column) := do
  let index ← t.schema.columnIndex? name strict
  return index.bind t.column?

def toBatch (t : Table) : Except Arrow.BatchError Arrow.RecordBatch :=
  Arrow.RecordBatch.create (List.zipWith (fun name (type : ElementType) => (name, type.dataType))
    t.schema.names t.schema.types) (t.columns.map fun c => .flat c.toFlat) t.rows

end Table
end TickingTable
