import TickingTable.RowSet.Basic
import TickingTable.Table.Basic

/-! Updates: what one message does to a table. -/

namespace TickingTable

inductive UpdateKind where
  /-- The first update of a subscription, which brings the contents of the table. -/
  | snapshot
  | delta
deriving DecidableEq

/-- The table after a step: the very table from before it, or a new one. -/
inductive Revision where
  | same
  | changed (table : Table)
deriving DecidableEq

def Revision.table (before : Table) : Revision → Table
  | .same => before
  | .changed table => table

/-- The effect of a message in three steps: rows are removed, rows are added, cells are modified.
Row sets hold positions, those of removed rows in the table before the update and those of added
and modified rows in the table after it. -/
structure Update where
  kind : UpdateKind
  firstSeq : Int64
  lastSeq : Int64
  prev : Table
  removed : RowSet
  removal : Revision
  added : RowSet
  addition : Revision
  modified : List RowSet
  modification : Revision
deriving DecidableEq

namespace Update

def afterRemoves (u : Update) : Table := u.removal.table u.prev

def afterAdds (u : Update) : Table := u.addition.table u.afterRemoves

def current (u : Update) : Table := u.modification.table u.afterAdds

end Update
end TickingTable
