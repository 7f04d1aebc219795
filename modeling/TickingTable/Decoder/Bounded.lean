import TickingTable.Decoder.Basic
import TickingTable.RowSet.Bounded

/-! Decoders that panic: where a sum is no 64-bit number, and where a table has more rows than memory
can address. The panic drops the message and changes nothing else. -/

namespace TickingTable
namespace Decoder

/-- Why a decoder panics. -/
inductive Crash where
  | overflow (e : SumOverflow)
  | capacity (rows : Nat)
deriving DecidableEq

def Crash.message : Crash → String
  | .overflow e => e.message
  | .capacity _ => "capacity overflow"

/-- The source of a row takes 16 bytes, and the sources of a table must take fewer than `2 ^ 63`. -/
def rowLimit : Nat := UInt64.size / 32

/-- Looks up the modified rows of one column after the other, up to a column with an unknown one. They
are rows of a table that memory had room for. -/
def lookUp (keys : RowSet) : List RowSet → Except SumOverflow Unit
  | [] => return
  | modified :: declared => do
    match ← keys.positionsOf modified with
    | none => return
    | some _ => lookUp keys declared

/-- Whatever can panic while the added and modified rows are put into the table, which has these keys
and as many rows in the end. -/
def fillBounds (keys : RowSet) (m : UpdateMetadata) : Except Crash Unit := do
  let some added ← (keys.positionsOf m.added).mapError .overflow | return
  if !added.isEmpty ∧ rowLimit ≤ keys.size then throw (.capacity keys.size)
  else (lookUp keys m.modified).mapError .overflow

/-- Whatever can panic in the course of a message for rows with these keys, as far as the message
fits them. -/
def bounds (keys : RowSet) (m : UpdateMetadata) : Except Crash Unit := do
  let some _ ← (keys.positionsOf m.removed).mapError .overflow | return
  let some shifted ← ((keys.difference m.removed).shift m.shifts).mapError .overflow | return
  if shifted.intersects m.added then return
  else fillBounds (shifted.union m.added) m

/-- The message that a frame completes. -/
def completed? (d : Decoder) (f : Frame) : Option PendingMessage :=
  match d.checkFrame f >>= fun columns => d.messageOf f.metadata >>= fun p => p.absorb columns with
  | .error _ => none
  | .ok p => if p.isComplete then some p else none

def stepBounded (d : Decoder) (f : Frame) :
    Decoder × Except Crash (Except ProtocolError (Option Update)) :=
  match (d.completed? f).elim (.ok ()) fun p => bounds d.keys p.metadata with
  | .error e => ({ d with pending := none }, .error e)
  | .ok () =>
    let (next, answer) := d.step f
    (next, .ok answer)

end Decoder
end TickingTable
