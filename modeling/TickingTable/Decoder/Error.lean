import TickingTable.Table.Basic
import TickingTable.Wire.Reader

/-! What is wrong with a frame or a message. -/

namespace TickingTable

inductive ProtocolError where
  | missingMetadata
  | unexpectedMetadata
  | metadata (e : Wire.Error)
  | invalidShifts
  | columnCountMismatch (expected actual : Nat)
  | modifiedColumnCountMismatch (expected actual : Nat)
  | columnTypeMismatch (column : Nat) (expected actual : ElementType)
  | sizeMismatch (column size length : Nat)
  | unevenAddColumns
  | tooManyRows (column declared received : Nat)
  | removedRowNotFound
  | addedRowExists
  | modifiedRowNotFound (column : Nat)
  | column (e : ColumnError)
  | table (e : TableError)
  | array (e : Arrow.ArrayError)
deriving DecidableEq

def ProtocolError.message : ProtocolError → String
  | .missingMetadata => "received a frame without metadata while no message was in progress"
  | .unexpectedMetadata =>
    "received new message metadata before the previous message was complete"
  | .metadata e => e.message
  | .invalidShifts => "shift ranges are malformed or reorder rows"
  | .columnCountMismatch expected actual =>
    "frame has " ++ toString actual ++ " columns, the schema has " ++ toString expected
  | .modifiedColumnCountMismatch expected actual =>
    "metadata describes modifications of " ++ toString actual ++ " columns, the schema has " ++
      toString expected
  | .columnTypeMismatch index expected actual =>
    "frame column " ++ toString index ++ " has type " ++ actual.name ++ ", the schema says " ++
      expected.name
  | .sizeMismatch index size length =>
    "frame column " ++ toString index ++ " declares " ++ toString size ++ " rows but holds " ++
      toString length
  | .unevenAddColumns => "add frame columns have different sizes"
  | .tooManyRows index declared received =>
    "column " ++ toString index ++ " received " ++ toString received ++
      " rows, the message declared " ++ toString declared
  | .removedRowNotFound => "removed row key is not in the current row set"
  | .addedRowExists => "added row key is already in the row set"
  | .modifiedRowNotFound index =>
    "modified row key in column " ++ toString index ++ " is not in the row set"
  | .column e => e.message
  | .table e => e.message
  | .array e => "error assembling column data: " ++ e.message

end TickingTable
