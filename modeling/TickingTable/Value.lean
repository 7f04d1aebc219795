import TickingTable.Calendar
import TickingTable.Decimal.Layout
import TickingTable.ElementType
import TickingTable.Text.Hex

/-! Single values of table cells and their text. -/

namespace TickingTable

/-- Floating-point numbers are kept as their bits, so that equality tells all of them apart. -/
inductive Value where
  | char (unit : UInt16)
  | int8 (n : Int8)
  | int16 (n : Int16)
  | int32 (n : Int32)
  | int64 (n : Int64)
  | float (bits : UInt32)
  | double (bits : UInt64)
  | bool (b : Bool)
  | string (s : String)
  | timestamp (nanoseconds : Int64)
deriving DecidableEq

namespace Value

def type : Value → ElementType
  | .char _ => .char
  | .int8 _ => .int8
  | .int16 _ => .int16
  | .int32 _ => .int32
  | .int64 _ => .int64
  | .float _ => .float
  | .double _ => .double
  | .bool _ => .bool
  | .string _ => .string
  | .timestamp _ => .timestamp

/-- A code unit as a character. Half of a surrogate pair is escaped. -/
def charText (unit : UInt16) : String :=
  if 0xD800 ≤ unit ∧ unit ≤ 0xDFFF then "\\u" ++ Hex.fixed 4 unit.toNat
  else String.singleton (Char.ofNat unit.toNat)

def boolText (b : Bool) : String := if b then "true" else "false"

/-- The text of a value on its own. -/
def text : Value → String
  | .char unit => charText unit
  | .int8 n => toString n.toInt
  | .int16 n => toString n.toInt
  | .int32 n => toString n.toInt
  | .int64 n => toString n.toInt
  | .float bits => Decimal.Layout.plain.text (.ofBits .single bits.toNat)
  | .double bits => Decimal.Layout.plain.text (.ofBits .double bits.toNat)
  | .bool b => boolText b
  | .string s => s
  | .timestamp n => (CivilTime.ofNanoseconds n.toInt).utcText

/-- The text of a value in the grid of a table, where code units are numbers. -/
def gridText : Value → String
  | .char unit => toString unit.toNat
  | .float bits => Decimal.Layout.gridFloat.text (.ofBits .single bits.toNat)
  | .double bits => Decimal.Layout.gridDouble.text (.ofBits .double bits.toNat)
  | .timestamp n => (CivilTime.ofNanoseconds n.toInt).text
  | v => v.text

end Value

/-- A value or null. -/
abbrev Cell := Option Value

/-- Nulls belong to every type. -/
def Cell.HasType (c : Cell) (type : ElementType) : Prop := ∀ v ∈ c, v.type = type

instance (c : Cell) (type : ElementType) : Decidable (c.HasType type) := by
  unfold Cell.HasType; infer_instance

end TickingTable
