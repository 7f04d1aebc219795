import TickingTable.Decoder.Basic
import TickingTable.Proofs.Table

/-! Steps that give back the very table they got if there is nothing to do. -/

namespace TickingTable

/-- The table after a step, which is the very table from before it if there is nothing to do. -/
def revise (unchanged : Bool) (x : Except ProtocolError Table) : Except ProtocolError Revision :=
  if unchanged then .ok .same else .changed <$> x

/-- What a revision makes of a table. -/
structure Revision.Gives (r : Revision) (before : Table) (unchanged : Bool) (rows : Nat)
    (grid : List (List Cell)) : Prop where
  same : r = .same ↔ unchanged = true
  schema : (r.table before).schema = before.schema
  rows : (r.table before).rows = rows
  grid : (r.table before).grid = grid

section

variable {r s : Revision} {before : Table} {unchanged : Bool} {rows : Nat}
  {grid : List (List Cell)}

theorem Revision.Gives.unique (hr : r.Gives before unchanged rows grid)
    (hs : s.Gives before unchanged rows grid) : r = s := by
  have ht : r.table before = s.table before :=
    Table.ext_grid (hr.schema.trans hs.schema.symm) (hr.rows.trans hs.rows.symm)
      (hr.grid.trans hs.grid.symm)
  have hsame := hr.same.trans hs.same.symm
  cases r with
  | same => exact (hsame.1 rfl).symm
  | changed t =>
    cases s with
    | same => exact hsame.2 rfl
    | changed u => exact congrArg _ ht

theorem revise_eq_ok {x : Except ProtocolError Table} {schema : Schema}
    (hx : ∃ t, x = .ok t ∧ t.schema = schema ∧ t.rows = rows ∧ t.grid = grid)
    (hschema : before.schema = schema)
    (hsame : unchanged = true → before.rows = rows ∧ before.grid = grid) :
    ∃ r, revise unchanged x = .ok r ∧ r.Gives before unchanged rows grid := by
  obtain ⟨t, rfl, ht, hrows, hgrid⟩ := hx
  cases unchanged with
  | true => exact ⟨.same, rfl, by simp, rfl, (hsame rfl).1, (hsame rfl).2⟩
  | false => exact ⟨.changed t, rfl, by simp, ht.trans hschema.symm, hrows, hgrid⟩

end

theorem spliceCells_of_isEmpty {added : RowSet} {base new : List Cell}
    (h : added.isEmpty = true) : spliceCells added base new = base := by
  have hnil := RowSet.isEmpty_iff.1 h
  have hmem : ∀ p, ¬ p ∈ added := by simp [← RowSet.mem_toList, hnil]
  have hrank : ∀ p, added.rank p = 0 := by simp [RowSet.rank, hnil]
  have hpick := @pickCells_range base _ rfl
  rw [spliceCells, RowSet.isEmpty_iff_size.1 h]
  simpa [hmem, hrank, pickCells] using hpick

theorem overwriteCells_of_isEmpty {modified : RowSet} {base new : List Cell}
    (h : modified.isEmpty = true) : overwriteCells modified base new = base := by
  have hnil := RowSet.isEmpty_iff.1 h
  have hmem : ∀ p, ¬ p ∈ modified := by simp [← RowSet.mem_toList, hnil]
  have hpick := @pickCells_range base _ rfl
  simpa [overwriteCells, hmem, pickCells] using hpick

namespace Table

theorem removal_eq_ok (t : Table) (removed : RowSet) :
    ∃ r, revise removed.isEmpty (t.removeRows removed) = .ok r ∧
      r.Gives t removed.isEmpty (keptRows t.rows removed).length
        (t.grid.map (pickCells (keptRows t.rows removed))) := by
  apply revise_eq_ok (t.removeRows_eq_ok removed) rfl
  intro hempty
  rw [keptRows_of_isEmpty hempty, List.length_range]
  refine ⟨rfl, ?_⟩
  conv_lhs => rw [← List.map_id t.grid]
  apply List.map_congr_left
  intro cells hcells
  rw [pickCells_range (length_of_mem_grid hcells), id]

theorem gives_of_removal {t : Table} {removed : RowSet} {removal : Revision}
    (h : revise removed.isEmpty (t.removeRows removed) = .ok removal) :
    removal.Gives t removed.isEmpty (keptRows t.rows removed).length
      (t.grid.map (pickCells (keptRows t.rows removed))) := by
  obtain ⟨r, hr, hgives⟩ := t.removal_eq_ok removed
  rw [h] at hr
  cases hr
  exact hgives

theorem addition_eq_ok {t : Table} {added : RowSet} {chunks : List (List Column)}
    (h : t.Insertable added chunks) :
    ∃ r, revise added.isEmpty (t.insertRows added chunks) = .ok r ∧
      r.Gives t added.isEmpty (t.rows + added.size)
        (List.zipWith (spliceCells added) t.grid (chunks.map cellsOf)) := by
  apply revise_eq_ok (insertRows_eq_ok h) rfl
  intro hempty
  rw [RowSet.isEmpty_iff_size.1 hempty, Nat.add_zero]
  refine ⟨rfl, ?_⟩
  symm
  apply zipWith_eq_left
  · rw [length_grid, ← length_columns, List.length_map, h.length]
  · intro base _ new _
    exact spliceCells_of_isEmpty hempty

end Table
end TickingTable
