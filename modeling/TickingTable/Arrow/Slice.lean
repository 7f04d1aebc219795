import TickingTable.Arrow.Array

/-! Slices that must lie within an array. -/

namespace TickingTable.Arrow

/-- What an array checks a slice against first. -/
inductive Extent where
  /-- A number of elements of a kind of buffer. -/
  | elements (buffer : String)
  /-- Bytes of a buffer with `width` bytes for each element. -/
  | values (width : Nat)
  /-- Bytes of a buffer of offsets, of which there is one more than elements. -/
  | offsets (width : Nat)

/-- What an array of a type checks a slice against first. Lists are taken to be masked. -/
def DataType.extent : DataType → Extent
  | .utf8View => .values 16
  | .utf8 | .binary => .offsets 4
  | .largeUtf8 | .largeBinary => .offsets 8
  | .fixedSizeList _ _ => .elements "FixedSizeListArray"
  | .fixedSizeBinary _ => .elements "FixedSizeBinaryArray"
  | .dictionary key _ => key.extent
  | .struct _ => .elements "StructArray"
  | type => type.width?.elim (.elements "BooleanBuffer") .values

def AnyArray.extent : AnyArray → Extent
  | .flat a => a.type.extent
  | .blank type _ => type.extent
  | .list _ true _ _ => .elements "BooleanBuffer"
  | .list large false _ _ => .offsets (if large then 8 else 4)

/-- A slice that does not lie within its array. Its bytes may be more than a word can count. -/
inductive SliceError where
  | elements (buffer : String)
  | offsetOverflow
  | lengthOverflow
  | bytes (offset length available : Nat)
deriving DecidableEq

def SliceError.message : SliceError → String
  | .elements buffer =>
    "the length + offset of the sliced " ++ buffer ++ " cannot exceed the existing length"
  | .offsetOverflow => "offset overflow"
  | .lengthOverflow => "length overflow"
  | .bytes offset length available =>
    "the offset of the new Buffer cannot exceed the existing length: slice offset=" ++
      toString offset ++ " length=" ++ toString length ++ " selflen=" ++ toString available

/-- What is wrong with a slice, given by numbers of bytes. -/
def SliceError.ofBytes (offset length available : Nat) : SliceError :=
  if UInt64.size ≤ offset then .offsetOverflow
  else if UInt64.size ≤ length then .lengthOverflow
  else .bytes offset length available

def Extent.error (offset length size : Nat) : Extent → SliceError
  | .elements buffer => .elements buffer
  | .values width => .ofBytes (offset * width) (length * width) (size * width)
  | .offsets width => .ofBytes (offset * width) ((length + 1) * width) ((size + 1) * width)

def AnyArray.slice (a : AnyArray) (offset length : Nat) : Except SliceError AnyArray :=
  if offset + length ≤ a.size then .ok (a.extract offset length)
  else .error (a.extent.error offset length a.size)

end TickingTable.Arrow
