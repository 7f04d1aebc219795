import TickingTable.Arrow.Array

/-! Record batches: arrays of one length with a name for each. -/

namespace TickingTable.Arrow

inductive BatchError where
  | columnCount (columns fields : Nat)
  | rowCount
  | columnType (index : Nat) (expected actual : DataType)
deriving DecidableEq

namespace BatchError

def cause : BatchError → String
  | .columnCount columns fields =>
    "number of columns(" ++ toString columns ++ ") must match number of fields(" ++
      toString fields ++ ") in schema"
  | .rowCount => "all columns in a record batch must have the specified row count"
  | .columnType index expected actual =>
    "column types must match schema types, expected " ++ expected.nestedText ++ " but found " ++
      actual.nestedText ++ " at column index " ++ toString index

def message (e : BatchError) : String := "Invalid argument error: " ++ e.cause

end BatchError

/-- All fields are nullable. The row count is given since there may be no columns to count. -/
structure RecordBatch where
  fields : List (String × DataType)
  columns : List AnyArray
  rows : Nat

namespace RecordBatch

/-- The first column whose type is not that of its field. -/
def mismatch? (index : Nat) : List AnyArray → List (String × DataType) → Option BatchError
  | a :: columns, (_, type) :: fields =>
    if a.type = type then mismatch? (index + 1) columns fields
    else some (.columnType index type a.type)
  | _, _ => none

def create (fields : List (String × DataType)) (columns : List AnyArray) (rows : Nat) :
    Except BatchError RecordBatch :=
  if columns.length ≠ fields.length then .error (.columnCount columns.length fields.length)
  else if columns.any fun a => a.size ≠ rows then .error .rowCount
  else match mismatch? 0 columns fields with
    | some e => .error e
    | none => .ok ⟨fields, columns, rows⟩

end RecordBatch
end TickingTable.Arrow
