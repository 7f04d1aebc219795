import TickingTable.Decoder.Pending
import TickingTable.Decoder.Splice
import TickingTable.Update

/-! The decoder of one subscription, which turns frames into updates. -/

namespace TickingTable

/-- One frame: its columns, the number of rows that count in each, and its metadata. -/
structure Frame where
  columns : List Column
  sizes : List Nat
  metadata : Option (List UInt8)
deriving DecidableEq

/-- Row `i` of the current table has the `i`-th smallest of the keys. -/
structure Decoder where
  schema : Schema
  kind : UpdateKind
  keys : RowSet
  current : Table
  pending : Option PendingMessage
deriving DecidableEq

namespace Decoder

def start (schema : Schema) : Decoder := ⟨schema, .snapshot, .empty, .empty schema, none⟩

/-- Cuts the columns of a frame, from number `index` on, to their sizes. -/
def trimColumns (index : Nat) :
    List Column → List Nat → List ElementType → Except ProtocolError (List Column)
  | c :: columns, size :: sizes, type :: types => do
    if c.type ≠ type then throw (.columnTypeMismatch index type c.type)
    if c.size < size then throw (.sizeMismatch index size c.size)
    let trimmed ← if size = c.size then pure c
      else (Column.ofFlat (c.toFlat.extract 0 size)).mapError .column
    return trimmed :: (← trimColumns (index + 1) columns sizes types)
  | _, _, _ => return []

/-- Checks a frame against the schema and gives its columns, cut to their sizes. -/
def checkFrame (d : Decoder) (f : Frame) : Except ProtocolError (List Column) :=
  if f.columns.length ≠ d.schema.size then
    .error (.columnCountMismatch d.schema.size f.columns.length)
  else if f.sizes.length ≠ f.columns.length then
    .error (.columnCountMismatch f.columns.length f.sizes.length)
  else trimColumns 0 f.columns f.sizes d.schema.types

/-- The message that a frame belongs to. -/
def messageOf (d : Decoder) (metadata : Option (List UInt8)) :
    Except ProtocolError PendingMessage :=
  match metadata, d.pending with
  | some input, none => do
    let m ← (UpdateMetadata.decode input).mapError .metadata
    PendingMessage.start m d.schema.size
  | some _, some _ => .error .unexpectedMetadata
  | none, some p => .ok p
  | none, none => .error .missingMetadata

/-- Overwrites the modified rows of the columns, from number `index` on. Gives the positions of
those rows for each column, and the column unless it has none. -/
def modifyColumns (keys : RowSet) (index : Nat) :
    List RowSet → List Delivery → List Column →
      Except ProtocolError (List (RowSet × Option Column))
  | modified :: declared, d :: deliveries, base :: columns => do
    let some positions := keys.positionsOf? modified | throw (.modifiedRowNotFound index)
    let changed ← if positions.isEmpty then pure none
      else some <$> base.interleave d.modChunks (overwriteIndices base.size positions d.modChunks)
    return (positions, changed) :: (← modifyColumns keys (index + 1) declared deliveries columns)
  | _, _, _ => return []

/-- Applies a complete message. Nothing of the decoder changes if the message does not fit. -/
def apply (d : Decoder) (p : PendingMessage) : Except ProtocolError (Decoder × Update) := do
  let m := p.metadata
  let some removed := d.keys.positionsOf? m.removed | throw .removedRowNotFound
  let removal ← if removed.isEmpty then pure .same
    else .changed <$> d.current.removeRows removed
  let afterRemoves := removal.table d.current
  let some shifted := (d.keys.difference m.removed).shift? m.shifts | throw .invalidShifts
  if shifted.intersects m.added then throw .addedRowExists
  let keys := shifted.union m.added
  let some added := keys.positionsOf? m.added | throw .addedRowExists
  let addition ← if added.isEmpty then pure .same
    else .changed <$> afterRemoves.insertRows added (p.deliveries.map Delivery.addChunks)
  let afterAdds := addition.table afterRemoves
  let changes ← modifyColumns keys 0 m.modified p.deliveries afterAdds.columns
  let columns := List.zipWith (fun base (change : RowSet × Option Column) => change.2.getD base)
    afterAdds.columns changes
  let modification ← if changes.all fun change => change.2.isNone then pure .same
    else .changed <$> (Table.ofColumns d.schema columns afterAdds.rows).mapError .table
  let update : Update :=
    { kind := d.kind, firstSeq := m.firstSeq, lastSeq := m.lastSeq, prev := d.current
      removed, removal, added, addition, modified := changes.map Prod.fst, modification }
  return ({ d with kind := .delta, keys, current := update.current, pending := none }, update)

/-- Takes one frame. The answer is an update if the frame completes a message and none if more
frames are needed. A frame that does not fit the schema is ignored; every other error drops the
message in progress. -/
def step (d : Decoder) (f : Frame) : Decoder × Except ProtocolError (Option Update) :=
  match d.checkFrame f with
  | .error e => (d, .error e)
  | .ok columns =>
    let idle := { d with pending := none }
    match d.messageOf f.metadata >>= fun p => p.absorb columns with
    | .error e => (idle, .error e)
    | .ok p =>
      if p.isComplete then
        match d.apply p with
        | .error e => (idle, .error e)
        | .ok (next, update) => (next, .ok (some update))
      else ({ d with pending := some p }, .ok none)

end Decoder
end TickingTable
