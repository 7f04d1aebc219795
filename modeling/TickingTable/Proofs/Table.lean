import TickingTable.Proofs.Columnwise
import TickingTable.Proofs.Rectangle
import TickingTable.Proofs.RowSet.Algebra
import TickingTable.Proofs.Splice

/-! The cells of a table, and what removing and inserting rows does to them. -/

namespace TickingTable

namespace Column

/-- The type and the cells of a column, which tell it from any other. -/
def contents (c : Column) : ElementType × List Cell := (c.type, c.cells.toList)

theorem contents_inj {c d : Column} (h : c.contents = d.contents) : c = d :=
  ext_cells (congrArg Prod.fst h) (congrArg Prod.snd h)

end Column

/-- One row of some columns, with a cell of each. -/
def rowOf (grid : List (List Cell)) (i : Nat) : List Cell := grid.map fun cells => cells.getD i none

theorem rowOf_pickCells {grid : List (List Cell)} {rows : List Nat} {i : Nat}
    (hi : i < rows.length) : rowOf (grid.map (pickCells rows)) i = rowOf grid rows[i] := by
  rw [rowOf, List.map_map]
  apply List.map_congr_left
  intro cells _
  simp [pickCells, hi]

theorem rowOf_spliceCells {grid news : List (List Cell)} {added : RowSet} {n p : Nat}
    (hg : ∀ cells ∈ grid, cells.length = n) (hl : grid.length = news.length)
    (hp : p < n + added.size) :
    rowOf (List.zipWith (spliceCells added) grid news) p =
      if p ∈ added then rowOf news (added.rank p) else rowOf grid (p - added.rank p) := by
  apply List.ext_getElem
  · split <;> simp [rowOf, hl]
  · intro c hc hc'
    have hcg : c < grid.length := by
      simp only [rowOf, List.length_map, List.length_zipWith] at hc
      omega
    have hpc : p < grid[c].length + added.size := hg _ (List.getElem_mem hcg) ▸ hp
    simp only [rowOf, List.getElem_map, List.getElem_zipWith, getD_spliceCells hpc]
    split
    · next hmem => simp only [List.getElem_map]
    · next hnot => simp only [List.getElem_map]

namespace Table

variable {t u : Table} {schema : Schema} {columns : List Column} {rows i : Nat}

/-- The cells of a table, column by column. -/
def grid (t : Table) : List (List Cell) := t.columns.map fun c => c.cells.toList

def row (t : Table) (i : Nat) : List Cell := rowOf t.grid i

@[simp] theorem length_grid (t : Table) : t.grid.length = t.schema.size := by
  rw [grid, List.length_map, length_columns]

theorem length_of_mem_grid {cells : List Cell} (h : cells ∈ t.grid) : cells.length = t.rows := by
  obtain ⟨c, hc, rfl⟩ := List.mem_map.1 h
  rw [c.length_cells, t.sizes_eq c hc]

/-- A table is told by its schema, its number of rows and its cells. -/
theorem ext_grid (hs : t.schema = u.schema) (hr : t.rows = u.rows) (hg : t.grid = u.grid) :
    t = u := by
  have hc : t.columns.map Column.contents = u.columns.map Column.contents := by
    have ht := t.types_eq.trans (congrArg Schema.types hs |>.trans u.types_eq.symm)
    have h := congrArg₂ List.zip ht hg
    rwa [grid, grid, List.zip_map', List.zip_map'] at h
  have hc := List.map_injective_iff.2 (fun _ _ => Column.contents_inj) hc
  obtain ⟨_, _, _, _, _⟩ := t
  obtain ⟨_, _, _, _, _⟩ := u
  simp_all

/-- Columns with the right types and sizes make a table. -/
theorem ofColumns_eq_ok {cells : List (List Cell)} (ht : columns.map Column.type = schema.types)
    (hc : columns.map (fun c => c.cells.toList) = cells) (hs : ∀ l ∈ cells, l.length = rows) :
    ∃ t, ofColumns schema columns rows = .ok t ∧ t.schema = schema ∧ t.rows = rows ∧
      t.grid = cells := by
  subst hc
  have hsizes : ∀ c ∈ columns, c.size = rows := by
    intro c hc
    rw [← c.length_cells]
    exact hs _ (List.mem_map.2 ⟨c, hc, rfl⟩)
  obtain ⟨t, hok⟩ := exists_ofColumns_iff.2 (allFit_iff.2 ⟨ht, hsizes⟩)
  obtain ⟨hschema, rfl, hrows⟩ := of_ofColumns hok
  exact ⟨t, hok, hschema, hrows, rfl⟩

theorem ofColumnResults_eq_ok {r : Except ProtocolError (List Column)} {cells : List (List Cell)}
    (hr : r = .ok columns) (ht : columns.map Column.type = schema.types)
    (hc : columns.map (fun c => c.cells.toList) = cells) (hs : ∀ l ∈ cells, l.length = rows) :
    ∃ t, ofColumnResults schema r rows = .ok t ∧ t.schema = schema ∧ t.rows = rows ∧
      t.grid = cells := by
  obtain ⟨t, hok, hrest⟩ := ofColumns_eq_ok ht hc hs
  refine ⟨t, ?_, hrest⟩
  rw [ofColumnResults, hr]
  simp only [bind, Except.bind, hok]
  rfl

/-- The rows of a table that are left when some are removed. -/
def keptRows (n : Nat) (removed : RowSet) : List Nat :=
  ((RowSet.positions n).difference removed).toList

theorem keptRows_eq (n : Nat) (removed : RowSet) :
    keptRows n removed = (List.range n).filter fun p => decide (¬ p ∈ removed) := by
  rw [keptRows, RowSet.toList_difference, RowSet.toList_positions]

theorem lt_of_mem_keptRows {n p : Nat} {removed : RowSet} (h : p ∈ keptRows n removed) : p < n := by
  rw [keptRows_eq] at h
  exact List.mem_range.1 (List.mem_filter.1 h).1

theorem keptRows_of_isEmpty {n : Nat} {removed : RowSet} (h : removed.isEmpty = true) :
    keptRows n removed = List.range n := by
  have hnil := RowSet.isEmpty_iff.1 h
  rw [keptRows_eq, List.filter_eq_self]
  intro p _
  simp [← RowSet.mem_toList, hnil]

theorem removeRows_eq_ok (t : Table) (removed : RowSet) :
    ∃ u, t.removeRows removed = .ok u ∧ u.schema = t.schema ∧
      u.rows = (keptRows t.rows removed).length ∧
      u.grid = t.grid.map (pickCells (keptRows t.rows removed)) := by
  have htake : ∀ c ∈ t.columns, ∃ d, c.take (keptRows t.rows removed) = .ok d ∧
      d.contents = (c.type, pickCells (keptRows t.rows removed) c.cells.toList) := by
    intro c hc
    have hrows : ∀ row ∈ keptRows t.rows removed, row < c.size := by
      intro row hrow
      rw [t.sizes_eq c hc]
      exact lt_of_mem_keptRows hrow
    obtain ⟨d, hd, ht, hcells⟩ := Column.take_eq_ok hrows
    exact ⟨d, hd, Prod.ext ht hcells⟩
  obtain ⟨columns, hcols, hcontents⟩ := exists_mapM_eq_ok htake
  apply ofColumnResults_eq_ok hcols
  · have ht := congrArg (List.map Prod.fst) hcontents
    rw [List.map_map, List.map_map] at ht
    exact ht.trans t.types_eq
  · have hg := congrArg (List.map Prod.snd) hcontents
    rw [List.map_map, List.map_map] at hg
    rw [grid, List.map_map]
    exact hg
  · intro l hl
    obtain ⟨cells, _, rfl⟩ := List.mem_map.1 hl
    exact length_pickCells _ _

/-- What the chunks of a column must be for their rows to be inserted at `added`. -/
structure Insertable (t : Table) (added : RowSet) (chunks : List (List Column)) : Prop where
  length : chunks.length = t.columns.length
  types : ∀ x ∈ t.columns.zip chunks, ∀ c ∈ x.2, c.type = x.1.type
  sizes : ∀ l ∈ chunks, (chunks.head?.getD []).map Column.size = l.map Column.size
  rows : ∀ l ∈ chunks, (cellsOf l).length = added.size
  positions : ∀ p, p ∈ added → p < t.rows + added.size

theorem Insertable.addressed {added : RowSet} {chunks : List (List Column)}
    (h : t.Insertable added chunks) {x : Column × List Column} (hx : x ∈ t.columns.zip chunks) :
    (insertIndices t.rows added (chunks.head?.getD [])).map (x.1.addressed? x.2) =
      (spliceCells added x.1.cells.toList (cellsOf x.2)).map some := by
  obtain ⟨hbase, hchunks⟩ := List.of_mem_zip hx
  have hsize := t.sizes_eq _ hbase
  rw [← hsize]
  apply addressed?_insertIndices (h.sizes _ hchunks) (h.rows _ hchunks)
  rw [hsize]
  exact h.positions

theorem insertRows_eq_ok {added : RowSet} {chunks : List (List Column)}
    (h : t.Insertable added chunks) :
    ∃ u, t.insertRows added chunks = .ok u ∧ u.schema = t.schema ∧
      u.rows = t.rows + added.size ∧
      u.grid = List.zipWith (spliceCells added) t.grid (chunks.map cellsOf) := by
  have hput : ∀ x ∈ t.columns.zip chunks, ∃ d,
      x.1.interleave x.2 (insertIndices t.rows added (chunks.head?.getD [])) = .ok d ∧
        d.contents = (x.1.type, spliceCells added x.1.cells.toList (cellsOf x.2)) := by
    intro x hx
    obtain ⟨d, hd, ht, hcells⟩ := Column.interleave_eq_ok (h.types x hx) (h.addressed hx)
    exact ⟨d, hd, Prod.ext ht hcells⟩
  obtain ⟨columns, hcols, hcontents⟩ := exists_mapM_eq_ok hput
  apply ofColumnResults_eq_ok hcols
  · have ht := congrArg (List.map Prod.fst) hcontents
    rw [List.map_map, List.map_map] at ht
    refine ht.trans (Eq.trans ?_ t.types_eq)
    conv_rhs => rw [← List.map_fst_zip (Nat.le_of_eq h.length.symm), List.map_map]
    rfl
  · have hg := congrArg (List.map Prod.snd) hcontents
    rw [List.map_map, List.map_map] at hg
    refine hg.trans ?_
    rw [grid, List.zipWith_map, List.zip_eq_zipWith, List.map_zipWith]
    rfl
  · intro l hl
    obtain ⟨i, hi, rfl⟩ := List.mem_iff_getElem.1 hl
    rw [List.getElem_zipWith, length_spliceCells, length_of_mem_grid (List.getElem_mem _)]

end Table
end TickingTable
