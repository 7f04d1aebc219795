import TickingTable.Arrow.DataType

/-! The types of table cells and the array types that carry them. -/

namespace TickingTable

inductive ElementType where
  /-- A UTF-16 code unit. -/
  | char
  | int8 | int16 | int32 | int64
  | float | double
  | bool
  | string
  /-- Nanoseconds since the start of 1970, UTC. -/
  | timestamp
deriving DecidableEq

namespace ElementType

open Arrow

def all : List ElementType :=
  [.char, .int8, .int16, .int32, .int64, .float, .double, .bool, .string, .timestamp]

def name : ElementType → String
  | .char => "char"
  | .int8 => "int8"
  | .int16 => "int16"
  | .int32 => "int32"
  | .int64 => "int64"
  | .float => "float"
  | .double => "double"
  | .bool => "bool"
  | .string => "string"
  | .timestamp => "timestamp"

def ofName? (s : String) : Option ElementType := all.find? (·.name = s)

/-- The array type that carries cells of this type. -/
def dataType : ElementType → DataType
  | .char => .uint16
  | .int8 => .int8
  | .int16 => .int16
  | .int32 => .int32
  | .int64 => .int64
  | .float => .float32
  | .double => .float64
  | .bool => .boolean
  | .string => .utf8
  | .timestamp => .timestamp .nanosecond none

/-- The cell type of an array type. Timestamps may have any time zone. -/
def ofDataType? : DataType → Option ElementType
  | .uint16 => some .char
  | .int8 => some .int8
  | .int16 => some .int16
  | .int32 => some .int32
  | .int64 => some .int64
  | .float32 => some .float
  | .float64 => some .double
  | .boolean => some .bool
  | .utf8 => some .string
  | .timestamp .nanosecond _ => some .timestamp
  | _ => none

end ElementType
end TickingTable
