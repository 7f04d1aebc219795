import TickingTable.Text.Hex
import TickingTable.Wire.LittleEndian

/-! Tickets, the names that a server gives to its tables. -/

namespace TickingTable

/-- Bytes that only the server interprets. -/
structure Ticket where
  bytes : List UInt8
deriving DecidableEq

namespace Ticket

/-- The byte `e`, with which the tickets of exported tables start. -/
def exportMark : UInt8 := 101

/-- The ticket of export number `id`: the mark and four bytes of the number. -/
def ofExport (id : Int32) : Ticket :=
  ⟨exportMark :: LittleEndian.encode 4 id.toUInt32.toNat⟩

def exportId? (t : Ticket) : Option Int32 :=
  match t.bytes with
  | [mark, a, b, c, d] =>
    if mark = exportMark then some (UInt32.ofNat (LittleEndian.decode [a, b, c, d])).toInt32
    else none
  | _ => none

def text (t : Ticket) : String :=
  match t.exportId? with
  | some id => "export/" ++ toString id.toInt
  | none => Hex.ofBytes t.bytes

def debugText (t : Ticket) : String := "Ticket(" ++ t.text ++ ")"

instance : Ord Ticket := ⟨fun s t => compare s.bytes t.bytes⟩

end Ticket
end TickingTable
