import TickingTable.Decoder.Error
import TickingTable.RowSet.Algebra

/-! Putting delivered rows into the columns of a table. -/

namespace TickingTable

/-- A source row: the number of a chunk, from 1 on, and the row there. Chunk 0 is the base column. -/
abbrev SourceRow := Nat × Nat

/-- All rows of the chunks, one chunk after the other. -/
def chunkRows (chunks : List Column) : List SourceRow :=
  (chunks.zipIdx 1).flatMap fun (c, i) => (List.range c.size).map fun row => (i, row)

/-- Sources of `n` rows from `position` on: the next delivered row at the positions in `added`, and
elsewhere the next row of the base column. -/
def insertFrom (position baseRow : Nat) : Nat → List Nat → List SourceRow → List SourceRow
  | 0, _, _ => []
  | n + 1, added, rows =>
    if added.head? = some position then
      rows.head?.toList ++ insertFrom (position + 1) baseRow n added.tail rows.tail
    else (0, baseRow) :: insertFrom (position + 1) (baseRow + 1) n added rows

def insertIndices (baseSize : Nat) (added : RowSet) (chunks : List Column) : List SourceRow :=
  insertFrom 0 0 (baseSize + added.size) added.toList (chunkRows chunks)

/-- Sources of `n` rows from `position` on: the next delivered row at the positions in `modified`,
and elsewhere the row that is there. -/
def overwriteFrom (position : Nat) : Nat → List Nat → List SourceRow → List SourceRow
  | 0, _, _ => []
  | n + 1, modified, rows =>
    if modified.head? = some position then
      rows.head?.toList ++ overwriteFrom (position + 1) n modified.tail rows.tail
    else (0, position) :: overwriteFrom (position + 1) n modified rows

def overwriteIndices (size : Nat) (modified : RowSet) (chunks : List Column) : List SourceRow :=
  overwriteFrom 0 size modified.toList (chunkRows chunks)

namespace Column

def ofArrayResult (a : Except Arrow.ArrayError Arrow.FlatArray) : Except ProtocolError Column :=
  match a with
  | .ok a => (ofFlat a).mapError .column
  | .error e => .error (.array e)

def interleave (base : Column) (chunks : List Column) (indices : List SourceRow) :
    Except ProtocolError Column :=
  ofArrayResult (Arrow.FlatArray.interleave base.toFlat (chunks.map toFlat) indices)

def take (c : Column) (rows : List Nat) : Except ProtocolError Column :=
  ofArrayResult (c.toFlat.take rows)

end Column

namespace Table

def ofColumnResults (schema : Schema) (columns : Except ProtocolError (List Column)) (rows : Nat) :
    Except ProtocolError Table := do
  (ofColumns schema (← columns) rows).mapError .table

def removeRows (t : Table) (removed : RowSet) : Except ProtocolError Table :=
  let kept := ((RowSet.positions t.rows).difference removed).toList
  ofColumnResults t.schema (t.columns.mapM fun c => c.take kept) kept.length

/-- Inserts the rows of `chunks`, which holds the chunks of each column. All columns come in chunks
of the same sizes, so that those of the first column tell the sources for all. -/
def insertRows (t : Table) (added : RowSet) (chunks : List (List Column)) :
    Except ProtocolError Table :=
  let indices := insertIndices t.rows added (chunks.head?.getD [])
  let columns := (t.columns.zip chunks).mapM fun (base, chunks) => base.interleave chunks indices
  ofColumnResults t.schema columns (t.rows + added.size)

end Table
end TickingTable
