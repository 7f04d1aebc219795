import TickingTable.RowSet.Basic
import TickingTable.Text.Hex
import TickingTable.Wire.LittleEndian

/-! Reading messages byte by byte, and the ways in which a message can be malformed. -/

namespace TickingTable.Wire

/-- Why the pairs of a row set do not list ascending keys. -/
inductive RowSetFault where
  | endsBeforeStart (index first last : Nat)
  | outOfOrder (index first : Nat)
  | reservedKey
deriving DecidableEq

def RowSetFault.message : RowSetFault → String
  | .endsBeforeStart index first last =>
    "interval " ++ toString index ++ " ends at " ++ toString last ++ " before it begins at " ++
      toString first
  | .outOfOrder index first =>
    "interval " ++ toString index ++ " starting at " ++ toString first ++ " is out of order"
  | .reservedKey => "row key u64::MAX is reserved"

inductive Error where
  | badMagic (magic : Nat)
  | unexpectedMessageType (type : UInt8)
  | truncated (requested available : Nat)
  | trailingBytes (count : Nat)
  | malformedRowSet (fault : RowSetFault)
deriving DecidableEq

def Error.message : Error → String
  | .badMagic magic => "bad magic number 0x" ++ Hex.fixed 8 magic
  | .unexpectedMessageType type => "unexpected message type " ++ toString type.toNat
  | .truncated requested available =>
    "truncated metadata: needed " ++ toString requested ++ " more bytes, " ++
      toString available ++ " available"
  | .trailingBytes count => toString count ++ " trailing bytes after metadata"
  | .malformedRowSet fault => "malformed row set: " ++ fault.message

/-- A reader consumes the front of the bytes that are left. -/
abbrev Reader := StateT (List UInt8) (Except Error)

namespace Reader

/-- The first `n` bytes and the rest, if there are so many. -/
def splitExact : Nat → List UInt8 → Option (List UInt8 × List UInt8)
  | 0, l => some ([], l)
  | _ + 1, [] => none
  | n + 1, b :: l => (splitExact n l).map fun (taken, rest) => (b :: taken, rest)

def bytes (n : Nat) : Reader (List UInt8) := fun input =>
  match splitExact n input with
  | some split => .ok split
  | none => .error (.truncated n input.length)

/-- A number of `width` bytes. -/
def number (width : Nat) : Reader Nat := do return LittleEndian.decode (← bytes width)

def u8 : Reader UInt8 := do return UInt8.ofNat (← number 1)

def u32 : Reader Nat := number 4

def u64 : Reader Nat := number 8

def i64 : Reader Int64 := do return (UInt64.ofNat (← u64)).toInt64

/-- Fails unless `n` bytes are left. -/
def require (n : Nat) : Reader Unit := fun input =>
  if input.length < n then .error (.truncated n input.length) else .ok ((), input)

/-- A count of elements that take at least `size` bytes each, all of which must be there. -/
def count (size : Nat) : Reader Nat := do
  let n ← u32
  require (n * size)
  return n

def many (item : Reader α) : Nat → Reader (List α)
  | 0 => return []
  | n + 1 => do
    let a ← item
    let l ← many item n
    return a :: l

/-- Fails if bytes are left. -/
def finish : Reader Unit := fun input =>
  if input.isEmpty then .ok ((), input) else .error (.trailingBytes input.length)

/-- What `reader` makes of all the bytes of a message. -/
def runAll (reader : Reader α) (input : List UInt8) : Except Error α :=
  match (do let a ← reader; finish; return a : Reader α) input with
  | .ok (a, _) => .ok a
  | .error e => .error e

end Reader

/-- Opens every message, and as the command of an exchange names the protocol. -/
def magic : Nat := 0x6E687064

def exchangeCommand : List UInt8 := LittleEndian.encode 4 magic

def encodeHeader (type : UInt8) : List UInt8 := exchangeCommand ++ [type]

def readHeader (expected : UInt8) : Reader Unit := do
  let found ← Reader.u32
  if found ≠ magic then throw (.badMagic found)
  let type ← Reader.u8
  if type ≠ expected then throw (.unexpectedMessageType type)

end TickingTable.Wire
