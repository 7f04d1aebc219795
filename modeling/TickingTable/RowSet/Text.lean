import TickingTable.RowSet.Basic

/-! The text of a row set: its intervals with both ends included, such as `[3-5,10]`. -/

namespace TickingTable

def Interval.text (i : Interval) : String :=
  if i.size = 1 then toString i.lo else toString i.lo ++ "-" ++ toString (i.hi - 1)

def RowSet.text (r : RowSet) : String :=
  "[" ++ ",".intercalate (r.intervals.map Interval.text) ++ "]"

def RowSet.debugText (r : RowSet) : String := "RowSequence" ++ r.text

end TickingTable
