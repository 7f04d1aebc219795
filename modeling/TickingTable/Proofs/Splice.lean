import TickingTable.Proofs.Column
import TickingTable.Proofs.RowSet.Algebra

/-! Delivered rows end up at the positions they belong to, in the order of their delivery. -/

namespace TickingTable

variable {base : Column} {chunks first : List Column} {marked : RowSet}

/-- The cells of the chunks, one chunk after the other. -/
def cellsOf (chunks : List Column) : List Cell := chunks.flatMap fun c => c.cells.toList

@[simp] theorem cellsOf_nil : cellsOf [] = [] := rfl

@[simp] theorem cellsOf_cons (c : Column) (chunks : List Column) :
    cellsOf (c :: chunks) = c.cells.toList ++ cellsOf chunks := rfl

@[simp] theorem cellsOf_append (chunks more : List Column) :
    cellsOf (chunks ++ more) = cellsOf chunks ++ cellsOf more := List.flatMap_append

theorem length_cellsOf (chunks : List Column) :
    (cellsOf chunks).length = (chunks.map Column.size).sum := by
  simp only [cellsOf, List.length_flatMap, Column.length_cells]

/-- Cells of new rows put between the cells of a column, at the given positions. -/
def spliceCells (added : RowSet) (base new : List Cell) : List Cell :=
  (List.range (base.length + added.size)).map fun p =>
    if p ∈ added then new.getD (added.rank p) none else base.getD (p - added.rank p) none

/-- The cells of a column with those at the given positions replaced. -/
def overwriteCells (modified : RowSet) (base new : List Cell) : List Cell :=
  (List.range base.length).map fun p =>
    if p ∈ modified then new.getD (modified.rank p) none else base.getD p none

@[simp] theorem length_spliceCells {added : RowSet} {base new : List Cell} :
    (spliceCells added base new).length = base.length + added.size := by simp [spliceCells]

@[simp] theorem length_overwriteCells {modified : RowSet} {base new : List Cell} :
    (overwriteCells modified base new).length = base.length := by simp [overwriteCells]

theorem getD_spliceCells {added : RowSet} {base new : List Cell} {p : Nat}
    (hp : p < base.length + added.size) : (spliceCells added base new).getD p none =
      if p ∈ added then new.getD (added.rank p) none else base.getD (p - added.rank p) none := by
  simp [spliceCells, hp]

theorem getD_overwriteCells {modified : RowSet} {base new : List Cell} {p : Nat}
    (hp : p < base.length) : (overwriteCells modified base new).getD p none =
      if p ∈ modified then new.getD (modified.rank p) none else base.getD p none := by
  simp [overwriteCells, hp]

/-- Sources of `n` rows from `position` on: the next new row where a position is marked, and else
what `old` makes of the position and the number of unmarked ones before it. -/
def weave (old : Nat → Nat → SourceRow) (position kept : Nat) :
    Nat → List Nat → List SourceRow → List SourceRow
  | 0, _, _ => []
  | n + 1, marked, rows =>
    if marked.head? = some position then
      rows.head?.toList ++ weave old (position + 1) kept n marked.tail rows.tail
    else old position kept :: weave old (position + 1) (kept + 1) n marked rows

theorem insertFrom_eq_weave (position baseRow n : Nat) (added : List Nat) (rows : List SourceRow) :
    insertFrom position baseRow n added rows =
      weave (fun _ kept => (0, kept)) position baseRow n added rows := by
  induction n generalizing position baseRow added rows with
  | zero => rfl
  | succ n ih => simp only [insertFrom, weave, ih]

theorem overwriteFrom_eq_weave (position kept n : Nat) (modified : List Nat)
    (rows : List SourceRow) :
    overwriteFrom position n modified rows =
      weave (fun position _ => (0, position)) position kept n modified rows := by
  induction n generalizing position kept modified rows with
  | zero => rfl
  | succ n ih =>
    simp only [overwriteFrom, weave, ← ih (position + 1) kept, ← ih (position + 1) (kept + 1)]

theorem countP_lt_eq_zero {l : List Nat} {n : Nat} (h : ∀ k ∈ l, n ≤ k) :
    l.countP (· < n) = 0 := by
  rw [List.countP_eq_zero]
  intro k hk
  have := h k hk
  simp only [decide_eq_true_eq]
  omega

theorem countP_lt_le_sub {l : List Nat} {n : Nat} (hl : l.Pairwise (· < ·)) (h : ∀ k ∈ l, n ≤ k)
    (p : Nat) : l.countP (· < p) ≤ p - n := by
  rw [List.countP_eq_length_filter]
  apply length_le_of_ascending (hl.filter _)
  intro k hk
  obtain ⟨hk, hkp⟩ := List.mem_filter.1 hk
  exact ⟨h k hk, by simpa using hkp⟩

theorem succ_le_of_head?_ne {l : List Nat} {n : Nat} (hl : l.Pairwise (· < ·))
    (h : ∀ k ∈ l, n ≤ k) (hhead : l.head? ≠ some n) : ∀ k ∈ l, n + 1 ≤ k := by
  cases l with
  | nil => simp
  | cons a rest =>
    have ha := h a List.mem_cons_self
    have hne : a ≠ n := fun he => hhead (he ▸ rfl)
    intro k hk
    rcases List.mem_cons.1 hk with rfl | hk
    · omega
    · have := (List.pairwise_cons.1 hl).1 k hk
      omega

/-- A marked position takes the new row of its rank among the marked ones. -/
theorem weave_eq {old : Nat → Nat → SourceRow} {position kept n : Nat} {marked : List Nat}
    {rows : List SourceRow} (hl : marked.Pairwise (· < ·)) (hp : ∀ k ∈ marked, position ≤ k)
    (hr : rows.length = marked.length) :
    weave old position kept n marked rows = (List.range' position n).map fun p =>
      if p ∈ marked then rows.getD (marked.countP (· < p)) (0, 0)
      else old p (kept + (p - position - marked.countP (· < p))) := by
  induction n generalizing position kept marked rows with
  | zero => rfl
  | succ n ih =>
    rw [weave, List.range'_succ, List.map_cons]
    split
    · next hhead =>
      obtain ⟨rest, rfl⟩ : ∃ rest, marked = position :: rest := by
        cases marked with
        | nil => simp at hhead
        | cons a rest => exact ⟨rest, by simpa using hhead⟩
      obtain ⟨row, rows, rfl⟩ := List.exists_cons_of_length_eq_add_one hr
      obtain ⟨ha, hrest⟩ := List.pairwise_cons.1 hl
      have hzero := countP_lt_eq_zero fun k hk => Nat.le_of_lt (ha k hk)
      rw [List.head?_cons, Option.toList_some, List.singleton_append, List.tail_cons,
        List.tail_cons, ih hrest (fun k hk => ha k hk) (by simpa using hr)]
      simp only [List.mem_cons, true_or, if_true]
      congr 1
      · simp [hzero]
      · apply List.map_congr_left
        intro p hp'
        have hlt := (List.mem_range'_1.1 hp').1
        have hne : p ≠ position := by omega
        have hcount : (position :: rest).countP (· < p) = rest.countP (· < p) + 1 := by
          simp [show position < p by omega]
        simp only [hcount, hne, false_or, List.getD_cons_succ]
        congr 2
        omega
    · next hhead =>
      have hfar := succ_le_of_head?_ne hl hp hhead
      have hnot : ¬ position ∈ marked := fun h => absurd (hfar _ h) (by omega)
      rw [ih hl hfar hr]
      congr 1
      · simp [hnot, countP_lt_eq_zero hp]
      · apply List.map_congr_left
        intro p hp'
        have hlt := (List.mem_range'_1.1 hp').1
        have hcount := countP_lt_le_sub hl hfar p
        congr 2
        omega

theorem weave_toList {old : Nat → Nat → SourceRow} {n : Nat} {rows : List SourceRow}
    (hr : rows.length = marked.size) :
    weave old 0 0 n marked.toList rows = (List.range n).map fun p =>
      if p ∈ marked then rows.getD (marked.rank p) (0, 0) else old p (p - marked.rank p) := by
  rw [weave_eq marked.pairwise_toList (fun _ _ => Nat.zero_le _) (by simpa using hr),
    List.range_eq_range']
  simp only [RowSet.mem_toList, Nat.zero_add, Nat.sub_zero]
  rfl

theorem insertIndices_eq {n : Nat} (hr : (chunkRows chunks).length = marked.size) :
    insertIndices n marked chunks = (List.range (n + marked.size)).map fun p =>
      if p ∈ marked then (chunkRows chunks).getD (marked.rank p) (0, 0)
      else (0, p - marked.rank p) := by
  rw [insertIndices, insertFrom_eq_weave, weave_toList hr]

theorem overwriteIndices_eq {n : Nat} (hr : (chunkRows chunks).length = marked.size) :
    overwriteIndices n marked chunks = (List.range n).map fun p =>
      if p ∈ marked then (chunkRows chunks).getD (marked.rank p) (0, 0) else (0, p) := by
  rw [overwriteIndices, overwriteFrom_eq_weave 0 0, weave_toList hr]

theorem chunkRows_from_eq (h : first.map Column.size = chunks.map Column.size) (start : Nat) :
    ((first.zipIdx start).flatMap fun (c, i) => (List.range c.size).map fun row => (i, row)) =
      (chunks.zipIdx start).flatMap fun (c, i) => (List.range c.size).map fun row => (i, row) := by
  induction first generalizing chunks start with
  | nil =>
    obtain rfl : chunks = [] := by simpa using h.symm
    rfl
  | cons c first ih =>
    cases chunks with
    | nil => simp at h
    | cons d chunks =>
      simp only [List.map_cons, List.cons.injEq] at h
      simp only [List.zipIdx_cons, List.flatMap_cons, ih h.2, h.1]

/-- Rows of chunks are addressed alike if the chunks have the same sizes. -/
theorem chunkRows_eq_of_sizes (h : first.map Column.size = chunks.map Column.size) :
    chunkRows first = chunkRows chunks := chunkRows_from_eq h 1

theorem addressed?_chunkRows_from (before : List Column) :
    (((chunks.zipIdx (before.length + 1)).flatMap fun (c, i) =>
        (List.range c.size).map fun row => (i, row)).map
      (base.addressed? (before ++ chunks))) = (cellsOf chunks).map some := by
  induction chunks generalizing before with
  | nil => rfl
  | cons c chunks ih =>
    have h := ih (before ++ [c])
    rw [List.append_assoc, List.singleton_append, List.length_append, List.length_singleton] at h
    rw [List.zipIdx_cons, List.flatMap_cons, List.map_append, h, cellsOf_cons, List.map_append]
    congr 1
    rw [List.map_map]
    apply List.ext_getElem
    · simp
    · intro i hi hi'
      simp [Column.addressed?]

theorem addressed?_chunkRows (base : Column) (chunks : List Column) :
    (chunkRows chunks).map (base.addressed? chunks) = (cellsOf chunks).map some :=
  addressed?_chunkRows_from []

theorem length_chunkRows (chunks : List Column) :
    (chunkRows chunks).length = (cellsOf chunks).length := by
  cases chunks with
  | nil => rfl
  | cons c chunks =>
    have h := congrArg List.length (addressed?_chunkRows c (c :: chunks))
    simpa using h

theorem addressed?_getD_chunkRows {j : Nat} (hj : j < (cellsOf chunks).length) :
    base.addressed? chunks ((chunkRows chunks).getD j (0, 0)) =
      some ((cellsOf chunks).getD j none) := by
  have hj' : j < (chunkRows chunks).length := length_chunkRows chunks ▸ hj
  have h := congrArg (fun l => l[j]?) (addressed?_chunkRows base chunks)
  simpa [List.getD_eq_getElem, hj, hj'] using h

/-- The rank of an unmarked position among the unmarked ones. -/
theorem rank_unmarked {n p : Nat} (hmarked : ∀ k, k ∈ marked → k < n) (hp : p < n) :
    ((RowSet.positions n).difference marked).rank p = p - marked.rank p := by
  have hall := RowSet.rank_difference (fun k hk => RowSet.mem_positions.2 (hmarked k hk)) p
  rw [RowSet.rank_positions hp] at hall
  omega

theorem size_unmarked {n : Nat} (hmarked : ∀ k, k ∈ marked → k < n + marked.size) :
    ((RowSet.positions (n + marked.size)).difference marked).size = n := by
  have hall := RowSet.size_difference fun k hk => RowSet.mem_positions.2 (hmarked k hk)
  rw [RowSet.size_positions] at hall
  omega

/-- The unmarked positions below an unmarked one are fewer than the unmarked ones. -/
theorem sub_rank_lt {n p : Nat} (hmarked : ∀ k, k ∈ marked → k < n + marked.size)
    (hp : p < n + marked.size) (hnot : ¬ p ∈ marked) : p - marked.rank p < n := by
  have hlt := RowSet.rank_lt_size (RowSet.mem_difference.2 ⟨RowSet.mem_positions.2 hp, hnot⟩)
  rwa [rank_unmarked hmarked hp, size_unmarked hmarked] at hlt

theorem addressed?_insertIndices (hsizes : first.map Column.size = chunks.map Column.size)
    (hrows : (cellsOf chunks).length = marked.size)
    (hmarked : ∀ k, k ∈ marked → k < base.size + marked.size) :
    (insertIndices base.size marked first).map (base.addressed? chunks) =
      (spliceCells marked base.cells.toList (cellsOf chunks)).map some := by
  rw [insertIndices_eq (by rw [chunkRows_eq_of_sizes hsizes, length_chunkRows, hrows]),
    chunkRows_eq_of_sizes hsizes, spliceCells, base.length_cells, List.map_map, List.map_map]
  apply List.map_congr_left
  intro p hp
  simp only [Function.comp_apply]
  split
  · next hmem => exact addressed?_getD_chunkRows (hrows ▸ RowSet.rank_lt_size hmem)
  · next hnot => exact Column.addressed?_base (sub_rank_lt hmarked (List.mem_range.1 hp) hnot)

theorem addressed?_overwriteIndices (hrows : (cellsOf chunks).length = marked.size) :
    (overwriteIndices base.size marked chunks).map (base.addressed? chunks) =
      (overwriteCells marked base.cells.toList (cellsOf chunks)).map some := by
  rw [overwriteIndices_eq (by rw [length_chunkRows, hrows]), overwriteCells, base.length_cells,
    List.map_map, List.map_map]
  apply List.map_congr_left
  intro p hp
  simp only [Function.comp_apply]
  split
  · next hmem => exact addressed?_getD_chunkRows (hrows ▸ RowSet.rank_lt_size hmem)
  · exact Column.addressed?_base (List.mem_range.1 hp)

/-- Cells that stand at the members of a set in the order of others are these others. -/
theorem pickCells_eq_of_rank {r : RowSet} {cells new : List Cell} (hlen : new.length = r.size)
    (h : ∀ p, p ∈ r → cells.getD p none = new.getD (r.rank p) none) :
    pickCells r.toList cells = new := by
  have hranks : pickCells r.toList cells = pickCells (r.toList.map r.rank) new := by
    rw [pickCells, pickCells, List.map_map]
    apply List.map_congr_left
    intro p hp
    exact h p (RowSet.mem_toList.1 hp)
  rw [hranks, RowSet.map_rank_toList, pickCells_range hlen]

section

variable {added modified : RowSet} {base new : List Cell} {n : Nat} (hbase : base.length = n)

include hbase

theorem pickCells_spliceCells (hadded : ∀ p, p ∈ added → p < n + added.size)
    (hnew : new.length = added.size) :
    pickCells added.toList (spliceCells added base new) = new := by
  subst hbase
  apply pickCells_eq_of_rank hnew
  intro p hp
  rw [getD_spliceCells (hadded p hp), if_pos hp]

/-- Without the rows that were put in the others are what they were. -/
theorem pickCells_spliceCells_unmarked (hadded : ∀ p, p ∈ added → p < n + added.size) :
    pickCells ((RowSet.positions (n + added.size)).difference added).toList
      (spliceCells added base new) = base := by
  subst hbase
  apply pickCells_eq_of_rank (size_unmarked hadded).symm
  intro p hp
  obtain ⟨hlt, hnot⟩ := RowSet.mem_difference.1 hp
  have hlt := RowSet.mem_positions.1 hlt
  rw [getD_spliceCells hlt, if_neg hnot, rank_unmarked hadded hlt]

theorem pickCells_overwriteCells (hmodified : ∀ p, p ∈ modified → p < n)
    (hnew : new.length = modified.size) :
    pickCells modified.toList (overwriteCells modified base new) = new := by
  subst hbase
  apply pickCells_eq_of_rank hnew
  intro p hp
  rw [getD_overwriteCells (hmodified p hp), if_pos hp]

omit hbase in
theorem getElem?_overwriteCells {p : Nat} (hp : ¬ p ∈ modified) :
    (overwriteCells modified base new)[p]? = base[p]? := by
  rw [overwriteCells, List.getElem?_map]
  by_cases hlt : p < base.length
  · simp [hlt, hp]
  · simp [hlt]

end

end TickingTable
