import Mathlib.Algebra.Order.Ring.Nat
import Mathlib.Data.List.GetD
import TickingTable.Decoder.Splice
import TickingTable.Proofs.Kernels

/-! Cutting, picking and interleaving columns selects exactly the addressed cells, whatever library
has the operations on their arrays. -/

namespace TickingTable

namespace Column

open Arrow

variable {c d base : Column} {chunks : List Column} {indices : List SourceRow} {l : List Cell}

theorem ext_cells (ht : c.type = d.type) (hc : c.cells.toList = d.cells.toList) : c = d := by
  obtain ⟨type, cells, _⟩ := c
  obtain ⟨_, ⟨_⟩, _⟩ := d
  obtain ⟨_⟩ := cells
  simp_all

@[simp] theorem size_cells (c : Column) : c.cells.size = c.size := rfl

theorem length_cells (c : Column) : c.cells.toList.length = c.size := by simp

theorem ofFlat_of_type {a : FlatArray} {type : ElementType} (h : a.type = type.dataType) :
    ∃ c, ofFlat a = .ok c ∧ c.type = type ∧ c.cells = a.cells := by
  obtain ⟨_, cells, _⟩ := a
  dsimp only at h
  subst h
  cases type <;> exact ⟨_, rfl, rfl, rfl⟩

/-- The first `n` cells of a column, or all if there are fewer. -/
def trim (c : Column) (n : Nat) : Column :=
  ⟨c.type, c.cells.extract 0 n, by
    intro cell hc
    obtain ⟨k, hk, rfl⟩ := Array.mem_extract_iff_getElem.1 hc
    exact c.typed _ (Array.getElem_mem _)⟩

@[simp] theorem type_trim (c : Column) (n : Nat) : (c.trim n).type = c.type := rfl

@[simp] theorem toList_trim (c : Column) (n : Nat) :
    (c.trim n).cells.toList = c.cells.toList.take n := by simp [trim]

theorem size_trim_of_le {n : Nat} (h : n ≤ c.size) : (c.trim n).size = n := by
  rw [← length_cells, toList_trim, List.length_take, length_cells, Nat.min_eq_left h]

theorem trim_size (c : Column) : c.trim c.size = c := by
  refine ext_cells (type_trim c _) ?_
  rw [toList_trim, List.take_of_length_le]
  exact Nat.le_of_eq c.length_cells

theorem ofFlat_extract (c : Column) (n : Nat) : ofFlat (c.toFlat.extract 0 n) = .ok (c.trim n) := by
  have h : (c.toFlat.extract 0 n).type = c.type.dataType := rfl
  obtain ⟨d, hd, ht, hc⟩ := ofFlat_of_type h
  rw [hd]
  congr 1
  refine ext_cells (ht.trans (type_trim c n).symm) ?_
  rw [hc]
  simp [FlatArray.extract, toFlat, trim]

theorem slice_toFlat (k : Kernels) {c : Column} {n : Nat} (h : n ≤ c.size) :
    ∃ b, k.slice (.flat c.toFlat) 0 n = .ok b ∧ ofArray b = .ok (c.trim n) := by
  have hle : 0 + n ≤ (AnyArray.flat c.toFlat).size := (Nat.zero_add n).symm ▸ h
  exact ⟨_, k.slice_eq hle, c.ofFlat_extract n⟩

/-- The cell that a source row addresses among a base column and its chunks, if it is there. -/
def addressed? (base : Column) (chunks : List Column) (p : SourceRow) : Option Cell :=
  (base :: chunks)[p.1]?.bind fun c => c.cells[p.2]?

theorem addressed?_toFlat (p : SourceRow) :
    Arrow.addressed? (base.toFlat :: chunks.map toFlat) p = addressed? base chunks p := by
  rw [Arrow.addressed?, ← List.map_cons, List.getElem?_map, addressed?]
  cases (base :: chunks)[p.1]? <;> rfl

/-- An array that an operation made of the arrays of columns is a column again. -/
theorem ofArrayResult_eq_ok {r : Except ArrayError FlatArray} {type : ElementType}
    (h : ∃ a, r = .ok a ∧ a.type = type.dataType ∧ a.cells.toList = l) :
    ∃ c, ofArrayResult r = .ok c ∧ c.type = type ∧ c.cells.toList = l := by
  obtain ⟨a, rfl, hat, hac⟩ := h
  obtain ⟨c, hc, hct, hcc⟩ := ofFlat_of_type hat
  refine ⟨c, ?_, hct, by rw [hcc, hac]⟩
  simp only [ofArrayResult, hc]
  rfl

theorem interleave_toFlat (k : Kernels) (ht : ∀ c ∈ chunks, c.type = base.type)
    (h : indices.map (addressed? base chunks) = l.map some) :
    ∃ c, ofArrayResult (k.interleave base.toFlat (chunks.map toFlat) indices) = .ok c ∧
      c.type = base.type ∧ c.cells.toList = l := by
  have htypes : ∀ a ∈ chunks.map toFlat, a.type = base.toFlat.type := by
    intro a ha
    obtain ⟨c, hc, rfl⟩ := List.mem_map.1 ha
    simp only [toFlat, ht c hc]
  rw [← funext addressed?_toFlat] at h
  exact ofArrayResult_eq_ok (k.interleaved _ _ _ _ htypes h)

theorem interleave_eq_ok (ht : ∀ c ∈ chunks, c.type = base.type)
    (h : indices.map (addressed? base chunks) = l.map some) :
    ∃ c, base.interleave chunks indices = .ok c ∧ c.type = base.type ∧ c.cells.toList = l :=
  interleave_toFlat kernels ht h

end Column

/-- The cells in the given rows. -/
def pickCells (rows : List Nat) (cells : List Cell) : List Cell :=
  rows.map fun row => cells.getD row none

@[simp] theorem length_pickCells (rows : List Nat) (cells : List Cell) :
    (pickCells rows cells).length = rows.length := List.length_map _

namespace Column

open Arrow

variable {c : Column} {rows : List Nat}

theorem getElem?_cells {row : Nat} (h : row < c.size) :
    c.cells[row]? = some (c.cells.toList.getD row none) := by
  have hrow : row < c.cells.toList.length := c.length_cells ▸ h
  rw [← Array.getElem?_toList, List.getElem?_eq_getElem hrow, List.getD_eq_getElem _ _ hrow]

theorem addressed?_base {chunks : List Column} {row : Nat} (h : row < c.size) :
    c.addressed? chunks (0, row) = some (c.cells.toList.getD row none) :=
  getElem?_cells h

theorem take_toFlat (k : Kernels) (h : ∀ row ∈ rows, row < c.size) :
    ∃ t, ofArrayResult (k.take c.toFlat rows) = .ok t ∧ t.type = c.type ∧
      t.cells.toList = pickCells rows c.cells.toList := by
  apply ofArrayResult_eq_ok
  apply k.taken
  rw [pickCells, List.map_map]
  exact List.map_congr_left fun row hrow => getElem?_cells (h row hrow)

theorem take_eq_ok (h : ∀ row ∈ rows, row < c.size) :
    ∃ t, c.take rows = .ok t ∧ t.type = c.type ∧
      t.cells.toList = pickCells rows c.cells.toList :=
  take_toFlat kernels h

end Column

theorem pickCells_range {cells : List Cell} {n : Nat} (h : cells.length = n) :
    pickCells (List.range n) cells = cells := by
  subst h
  apply List.ext_getElem (by simp [pickCells])
  intro i hi hi'
  simp [pickCells, hi']

end TickingTable
