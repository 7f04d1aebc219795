import TickingTable.Table.Basic
import TickingTable.Text.Width

/-! Tables drawn as grids of text. -/

namespace TickingTable
namespace Grid

/-- A cell of a grid may have several lines. -/
abbrev GridCell := List String

def toCell (s : String) : GridCell := s.splitOn "\n"

def cellWidth (c : GridCell) : Nat := (c.map Width.ofString).foldl max 0

/-- Every column is at least one character wide. -/
def columnWidths (columns : Nat) (rows : List (List GridCell)) : List Nat :=
  let widen (widths : List Nat) (row : List GridCell) := List.zipWith max widths (row.map cellWidth)
  rows.foldl widen (List.replicate columns 1)

def border (widths : List Nat) : String :=
  let segments := widths.map fun w => String.ofList (List.replicate (w + 2) '-')
  "+" ++ "+".intercalate segments ++ "+"

def padRight (width : Nat) (s : String) : String :=
  s ++ String.ofList (List.replicate (width - Width.ofString s) ' ')

/-- One line of a row. A cell that has fewer lines is blank there. -/
def rowLine (widths : List Nat) (row : List GridCell) (line : Nat) : String :=
  let texts := List.zipWith (fun w (c : GridCell) => " " ++ padRight w (c.getD line "") ++ " ") widths row
  "|" ++ "|".intercalate texts ++ "|"

def rowLines (widths : List Nat) (row : List GridCell) : List String :=
  let height := (row.map List.length).foldl max 0
  (List.range height).map (rowLine widths row)

/-- A frame around header and rows, with a line below the header. -/
def lines (header : List GridCell) (rows : List (List GridCell)) : List String :=
  let widths := columnWidths header.length (header :: rows)
  let edge := border widths
  [edge] ++ rowLines widths header ++ [edge] ++ rows.flatMap (rowLines widths) ++ [edge]

end Grid

namespace Table

/-- The text of a cell in the grid, where null is blank. -/
def gridText (c : Cell) : String := c.elim "" Value.gridText

def text (t : Table) : String :=
  let header := t.schema.names.map Grid.toCell
  let row (i : Nat) := t.columns.map fun c => Grid.toCell (gridText (c.cells[i]?.getD none))
  "\n".intercalate (Grid.lines header ((List.range t.rows).map row))

end Table
end TickingTable
