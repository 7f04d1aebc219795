import TickingTable.Text.Quoted

/-! The types of the arrays that frames carry, and their text. -/

namespace TickingTable.Arrow

inductive TimeUnit where
  | second | millisecond | microsecond | nanosecond
deriving DecidableEq

def TimeUnit.text : TimeUnit → String
  | .second => "Second"
  | .millisecond => "Millisecond"
  | .microsecond => "Microsecond"
  | .nanosecond => "Nanosecond"

/-- The unit with this symbol. -/
def TimeUnit.ofSymbol? : String → Option TimeUnit
  | "s" => some .second
  | "ms" => some .millisecond
  | "us" => some .microsecond
  | "ns" => some .nanosecond
  | _ => none

mutual

inductive DataType where
  | null | boolean
  | int8 | int16 | int32 | int64
  | uint8 | uint16 | uint32 | uint64
  | float16 | float32 | float64
  | utf8 | largeUtf8 | utf8View
  | binary | largeBinary
  | date32 | date64
  | timestamp (unit : TimeUnit) (zone : Option String)
  | duration (unit : TimeUnit)
  | time64 (unit : TimeUnit)
  | list (item : DataType)
  | largeList (item : DataType)
  | fixedSizeList (item : DataType) (size : Int)
  | fixedSizeBinary (size : Int)
  | decimal128 (precision : Nat) (scale : Int)
  | dictionary (key value : DataType)
  | struct (fields : FieldList)
deriving DecidableEq

/-- The names and types of the fields of a struct. -/
inductive FieldList where
  | nil
  | cons (name : String) (type : DataType) (rest : FieldList)
deriving DecidableEq

end

namespace DataType

def zoneText : Option String → String
  | none => "None"
  | some zone => "Some(" ++ Quoted.text zone ++ ")"

/-- The full description of a nullable field. -/
def fieldText (name type : String) : String :=
  "Field \x7b name: " ++ Quoted.text name ++ ", data_type: " ++ type ++
    ", nullable: true, dict_id: 0, dict_is_ordered: false, metadata: \x7b\x7d \x7d"

mutual

/-- The text of a type within a field: struct fields are described in full. -/
def nestedText : DataType → String
  | .null => "Null"
  | .boolean => "Boolean"
  | .int8 => "Int8"
  | .int16 => "Int16"
  | .int32 => "Int32"
  | .int64 => "Int64"
  | .uint8 => "UInt8"
  | .uint16 => "UInt16"
  | .uint32 => "UInt32"
  | .uint64 => "UInt64"
  | .float16 => "Float16"
  | .float32 => "Float32"
  | .float64 => "Float64"
  | .utf8 => "Utf8"
  | .largeUtf8 => "LargeUtf8"
  | .utf8View => "Utf8View"
  | .binary => "Binary"
  | .largeBinary => "LargeBinary"
  | .date32 => "Date32"
  | .date64 => "Date64"
  | .timestamp unit zone => "Timestamp(" ++ unit.text ++ ", " ++ zoneText zone ++ ")"
  | .duration unit => "Duration(" ++ unit.text ++ ")"
  | .time64 unit => "Time64(" ++ unit.text ++ ")"
  | .list item => "List(" ++ fieldText "item" item.nestedText ++ ")"
  | .largeList item => "LargeList(" ++ fieldText "item" item.nestedText ++ ")"
  | .fixedSizeList item size =>
    "FixedSizeList(" ++ fieldText "item" item.nestedText ++ ", " ++ toString size ++ ")"
  | .fixedSizeBinary size => "FixedSizeBinary(" ++ toString size ++ ")"
  | .decimal128 precision scale =>
    "Decimal128(" ++ toString precision ++ ", " ++ toString scale ++ ")"
  | .dictionary key value =>
    "Dictionary(" ++ key.nestedText ++ ", " ++ value.nestedText ++ ")"
  | .struct fields => "Struct([" ++ ", ".intercalate (nestedTexts fields) ++ "])"

def nestedTexts : FieldList → List String
  | .nil => []
  | .cons name type rest => fieldText name type.nestedText :: nestedTexts rest

end

mutual

/-- The text of a type on its own: a struct lists the names and types of its fields. -/
def text : DataType → String
  | .struct fields => "Struct(" ++ ", ".intercalate (texts fields) ++ ")"
  | type => type.nestedText

def texts : FieldList → List String
  | .nil => []
  | .cons name type rest => (name ++ " " ++ type.text) :: texts rest

end

/-- The bytes of one value of a type whose values are kept as numbers. -/
def width? : DataType → Option Nat
  | .int8 | .uint8 => some 1
  | .int16 | .uint16 | .float16 => some 2
  | .int32 | .uint32 | .float32 | .date32 => some 4
  | .int64 | .uint64 | .float64 | .date64 => some 8
  | .timestamp _ _ | .duration _ | .time64 _ => some 8
  | .decimal128 _ _ => some 16
  | _ => none

/-- The types that have no parameters. -/
def plain : List DataType :=
  [.null, .boolean, .int8, .int16, .int32, .int64, .uint8, .uint16, .uint32, .uint64, .float16,
   .float32, .float64, .utf8, .largeUtf8, .utf8View, .binary, .largeBinary, .date32, .date64]

/-- The type with this text that has no parameters. -/
def ofName? (s : String) : Option DataType := plain.find? fun type => type.text = s

end DataType
end TickingTable.Arrow
