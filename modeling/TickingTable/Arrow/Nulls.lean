import TickingTable.Arrow.Array

/-! Making arrays of nothing but nulls. The buffers of all parts of a type are laid out first, then
its parts are made, and either can fail: there are types of which no array of nulls is made, although
others may bring arrays of them, and not every size fits. -/

namespace TickingTable.Arrow

/-- Why no array of so many nulls is made. -/
inductive NullsError where
  /-- The keys of a dictionary are not numbers. -/
  | keyWidth
  /-- There is one more offset than elements, and a word cannot count them. -/
  | offsetCount
  /-- A word cannot count the elements or the bytes. -/
  | product
  /-- A buffer would have more bytes than memory has addresses for. -/
  | bufferSize
  /-- No array of nulls of that type is made. -/
  | typeWithoutNulls (type : DataType)
  /-- The keys of a dictionary are numbers, but not integers. -/
  | keyType (type : DataType)
deriving DecidableEq

def NullsError.message : NullsError → String
  | .keyWidth => "called `Option::unwrap()` on a `None` value"
  | .offsetCount => "attempt to add with overflow"
  | .product => "attempt to multiply with overflow"
  | .bufferSize => "called `Result::unwrap()` on an `Err` value: LayoutError"
  | .typeWithoutNulls type => "Unexpected data type " ++ type.nestedText
  | .keyType type => "Unexpected dictionary key type " ++ type.nestedText

/-- The word that stands for a size, which wraps around below zero. -/
def sizeWord (size : Int) : Nat := (size % UInt64.size).toNat

/-- The product of two words. -/
def wordProduct (m n : Nat) : Except NullsError Nat :=
  if m * n < UInt64.size then .ok (m * n) else .error .product

/-- Lays out a buffer of `n` values of `width` bytes. It starts at a multiple of 64 and ends in
the lower half of all addresses. -/
def layOutValues (width n : Nat) : Except NullsError Unit := do
  let bytes ← wordProduct width n
  if UInt64.size / 2 < bytes + 64 then throw .bufferSize

/-- Lays out a buffer of the offsets of `n` elements. -/
def layOutOffsets (width n : Nat) : Except NullsError Unit :=
  if n + 1 < UInt64.size then layOutValues width (n + 1) else .error .offsetCount

mutual

/-- Lays out the buffers of `n` nulls. Those of lists have no items, and those of dictionaries have
keys but no values. -/
def DataType.layOut : DataType → Nat → Except NullsError Unit
  | .utf8View, n => layOutValues 16 n
  | .utf8, n | .binary, n => layOutOffsets 4 n
  | .largeUtf8, n | .largeBinary, n => layOutOffsets 8 n
  | .fixedSizeBinary size, n => layOutValues (sizeWord size) n
  | .list item, n => do
    layOutOffsets 4 n
    item.layOut 0
  | .largeList item, n => do
    layOutOffsets 8 n
    item.layOut 0
  | .fixedSizeList item size, n => do item.layOut (← wordProduct (sizeWord size) n)
  | .struct fields, n => fields.layOut n
  | .dictionary key value, n =>
    match key.width? with
    | none => .error .keyWidth
    | some width => do
      layOutValues width n
      value.layOut 0
  | type, n =>
    match type.width? with
    | none => .ok ()
    | some width => layOutValues width n

def FieldList.layOut : FieldList → Nat → Except NullsError Unit
  | .nil, _ => .ok ()
  | .cons _ type rest, n => do
    type.layOut n
    rest.layOut n

end

def DataType.isInteger (type : DataType) : Bool :=
  [.int8, .int16, .int32, .int64, .uint8, .uint16, .uint32, .uint64].contains type

mutual

/-- Checks that nulls can be made of all parts of a type. Times of day in 64 bits are counted in
microseconds or nanoseconds only, and the keys of a dictionary are integers. -/
def DataType.checkParts : DataType → Except NullsError Unit
  | .time64 .second => .error (.typeWithoutNulls (.time64 .second))
  | .time64 .millisecond => .error (.typeWithoutNulls (.time64 .millisecond))
  | .list item | .largeList item | .fixedSizeList item _ => item.checkParts
  | .struct fields => fields.checkParts
  | .dictionary key value => if key.isInteger then value.checkParts else .error (.keyType key)
  | _ => .ok ()

def FieldList.checkParts : FieldList → Except NullsError Unit
  | .nil => .ok ()
  | .cons _ type rest => do
    type.checkParts
    rest.checkParts

end

/-- Makes an array of `n` nulls. -/
def AnyArray.ofNulls (type : DataType) (n : Nat) : Except NullsError AnyArray := do
  type.layOut n
  type.checkParts
  return nulls type n

end TickingTable.Arrow
