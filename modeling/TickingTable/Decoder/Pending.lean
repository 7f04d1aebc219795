import TickingTable.Decoder.Error
import TickingTable.Wire.Metadata

/-! Messages whose rows are still arriving. -/

namespace TickingTable

/-- The rows that have arrived for one column. -/
structure Delivery where
  addChunks : List Column := []
  modChunks : List Column := []
  modsReceived : Nat := 0
deriving DecidableEq

structure PendingMessage where
  metadata : UpdateMetadata
  addsReceived : Nat
  deliveries : List Delivery
deriving DecidableEq

namespace PendingMessage

/-- A message of which nothing has arrived. Frames without columns carry no rows, so that without
columns the metadata alone adds rows. -/
def start (m : UpdateMetadata) (columns : Nat) : Except ProtocolError PendingMessage :=
  if m.modified.length ≠ columns then
    .error (.modifiedColumnCountMismatch columns m.modified.length)
  else
    .ok ⟨m, if columns = 0 then m.added.size else 0, List.replicate columns {}⟩

def addsOutstanding (p : PendingMessage) : Nat := p.metadata.added.size - p.addsReceived

def isComplete (p : PendingMessage) : Bool :=
  p.addsOutstanding = 0 &&
    (p.deliveries.zip p.metadata.modified).all fun (d, modified) => d.modsReceived = modified.size

/-- Takes the rows of a frame as added rows, which come for all columns at once. -/
def absorbAdds (p : PendingMessage) (columns : List Column) :
    Except ProtocolError PendingMessage :=
  let rows := columns.head?.elim 0 Column.size
  if columns.any fun c => c.size ≠ rows then .error .unevenAddColumns
  else if p.addsOutstanding < rows then
    .error (.tooManyRows 0 p.metadata.added.size (p.addsReceived + rows))
  else if rows = 0 then .ok p
  else
    let append (d : Delivery) (c : Column) : Delivery := { d with addChunks := d.addChunks ++ [c] }
    .ok { p with
      addsReceived := p.addsReceived + rows
      deliveries := List.zipWith append p.deliveries columns }

/-- Takes the rows of a frame as modified rows of their columns, from number `index` on. -/
def deliverMods (index : Nat) :
    List Delivery → List RowSet → List Column → Except ProtocolError (List Delivery)
  | d :: deliveries, modified :: declared, c :: columns => do
    let received := d.modsReceived + c.size
    if modified.size < received then throw (.tooManyRows index modified.size received)
    let d := if c.size = 0 then d else
      { d with modChunks := d.modChunks ++ [c], modsReceived := received }
    return d :: (← deliverMods (index + 1) deliveries declared columns)
  | deliveries, _, _ => return deliveries

/-- As long as added rows are missing a frame brings added rows, and after that modified rows. -/
def absorb (p : PendingMessage) (columns : List Column) : Except ProtocolError PendingMessage :=
  if 0 < p.addsOutstanding then p.absorbAdds columns
  else do
    let deliveries ← deliverMods 0 p.deliveries p.metadata.modified columns
    return { p with deliveries }

end PendingMessage
end TickingTable
