import TickingTable.RowSet.Shift
import TickingTable.Wire.Reader

/-! The metadata that describes an update message, and its bytes. -/

namespace TickingTable

namespace Wire

/-- The number of intervals and then the first and last key of each. -/
def encodeRowSet (r : RowSet) : List UInt8 :=
  LittleEndian.encode 4 r.intervals.length ++
    r.intervals.flatMap fun i => LittleEndian.encode 8 i.lo ++ LittleEndian.encode 8 (i.hi - 1)

/-- Reads intervals from number `index` on, of which all but the first of the set start at `floor`
or above. -/
def readIntervals (index floor : Nat) (b : RowSet.Builder) : Nat → Reader RowSet.Builder
  | 0 => return b
  | n + 1 => do
    let first ← Reader.u64
    let last ← Reader.u64
    if last < first then throw (.malformedRowSet (.endsBeforeStart index first last))
    if 0 < index ∧ first < floor then throw (.malformedRowSet (.outOfOrder index first))
    if last = reservedKey then throw (.malformedRowSet .reservedKey)
    readIntervals (index + 1) (last + 1) (b.addInterval first (last + 1)) n

def readRowSet : Reader RowSet := do
  let n ← Reader.count 16
  let b ← readIntervals 0 0 .empty n
  return b.build

def encodeShift (s : ShiftRange) : List UInt8 :=
  LittleEndian.encode 8 s.first ++ LittleEndian.encode 8 s.last ++ LittleEndian.encode 8 s.dest

def readShift : Reader ShiftRange := do
  let first ← Reader.u64
  let last ← Reader.u64
  let dest ← Reader.u64
  return ⟨first, last, dest⟩

end Wire

/-- One update: rows to remove, key ranges to shift after that, rows to add and, for each column,
rows to modify after that. -/
structure UpdateMetadata where
  firstSeq : Int64
  lastSeq : Int64
  isSnapshot : Bool
  removed : RowSet
  shifts : List ShiftRange
  added : RowSet
  modified : List RowSet
deriving DecidableEq

namespace UpdateMetadata

def messageType : UInt8 := 5

open Wire

def encode (m : UpdateMetadata) : List UInt8 :=
  encodeHeader messageType ++ LittleEndian.encode 8 m.firstSeq.toUInt64.toNat ++
    LittleEndian.encode 8 m.lastSeq.toUInt64.toNat ++ [if m.isSnapshot then 1 else 0] ++
    encodeRowSet m.removed ++ LittleEndian.encode 4 m.shifts.length ++
    m.shifts.flatMap encodeShift ++ encodeRowSet m.added ++
    LittleEndian.encode 4 m.modified.length ++ m.modified.flatMap encodeRowSet

/-- Only the lowest bit of the flags byte has a meaning. -/
def reader : Reader UpdateMetadata := do
  readHeader messageType
  let firstSeq ← Reader.i64
  let lastSeq ← Reader.i64
  let flags ← Reader.u8
  let removed ← readRowSet
  let shifts ← Reader.count 24 >>= Reader.many readShift
  let added ← readRowSet
  let modified ← Reader.count 4 >>= Reader.many readRowSet
  return ⟨firstSeq, lastSeq, flags &&& 1 ≠ 0, removed, shifts, added, modified⟩

def decode (input : List UInt8) : Except Wire.Error UpdateMetadata := reader.runAll input

end UpdateMetadata
end TickingTable
