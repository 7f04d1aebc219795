import TickingTable.Proofs.Splice

/-! Where the rows of a column come from that is put together from an old one and delivered chunks:
the marked positions read every row of the chunks once and in order, and the others the old rows. -/

namespace TickingTable

variable {chunks : List Column} {marked : RowSet} {rows : List SourceRow} {n i row : Nat}

/-- All rows of the chunks, each once: one chunk after the other, and within a chunk from the first
row to the last. -/
structure Flattens (chunks : List Column) (rows : List SourceRow) : Prop where
  mem_iff : ∀ i row, (i, row) ∈ rows ↔ 1 ≤ i ∧ ∃ c, chunks[i - 1]? = some c ∧ row < c.size
  ordered : rows.Pairwise (Prod.Lex (· < ·) (· < ·))

theorem mem_chunkRows :
    (i, row) ∈ chunkRows chunks ↔ 1 ≤ i ∧ ∃ c, chunks[i - 1]? = some c ∧ row < c.size := by
  simp only [chunkRows, List.mem_flatMap, List.mem_map, List.mem_range, Prod.exists,
    Prod.mk.injEq, List.mk_mem_zipIdx_iff_le_and_getElem?_sub]
  constructor
  · rintro ⟨c, j, ⟨hj, hc⟩, r, hr, rfl, rfl⟩
    exact ⟨hj, c, hc, hr⟩
  · rintro ⟨hi, c, hc, hrow⟩
    exact ⟨c, i, ⟨hi, hc⟩, row, hrow, rfl, rfl⟩

theorem pairwise_chunkRows (chunks : List Column) :
    (chunkRows chunks).Pairwise (Prod.Lex (· < ·) (· < ·)) := by
  rw [chunkRows, List.pairwise_flatMap]
  constructor
  · intro entry _
    rw [List.pairwise_map]
    exact List.pairwise_lt_range.imp fun h => Prod.Lex.right _ h
  · have hnumbers : ((chunks.zipIdx 1).map Prod.snd).Pairwise (· < ·) := by
      rw [List.zipIdx_map_snd]
      exact List.pairwise_lt_range'
    refine (List.pairwise_map.1 hnumbers).imp ?_
    intro first second hlt a ha b hb
    obtain ⟨x, _, rfl⟩ := List.mem_map.1 ha
    obtain ⟨y, _, rfl⟩ := List.mem_map.1 hb
    exact Prod.Lex.left _ _ hlt

/-- Delivered rows that are read by their ranks are all read, in their order. -/
theorem map_getD_rank (hr : rows.length = marked.size) (d : SourceRow) :
    marked.toList.map (fun p => rows.getD (marked.rank p) d) = rows := by
  calc marked.toList.map (fun p => rows.getD (marked.rank p) d)
      = (marked.toList.map marked.rank).map fun k => rows.getD k d := by rw [List.map_map]; rfl
    _ = (List.range rows.length).map fun k => rows.getD k d := by rw [RowSet.map_rank_toList, hr]
    _ = rows := by
      apply List.ext_getElem (by simp)
      intro k hk hk'
      simp [hk']

section

variable {old : Nat → SourceRow} {indices : List SourceRow}
  (hindices : indices = (List.range n).map fun p =>
    if p ∈ marked then rows.getD (marked.rank p) (0, 0) else old p)

include hindices

/-- The marked positions read the delivered rows. -/
theorem getElem?_marked (hr : rows.length = marked.size) (hmarked : ∀ p ∈ marked, p < n) :
    (marked.toList.map fun p => indices[p]?) = rows.map some := by
  have hread : ∀ p ∈ marked.toList, indices[p]? = some (rows.getD (marked.rank p) (0, 0)) := by
    intro p hp
    have hmem := RowSet.mem_toList.1 hp
    simp [hindices, hmarked p hmem, hmem]
  calc (marked.toList.map fun p => indices[p]?)
      = marked.toList.map fun p => some (rows.getD (marked.rank p) (0, 0)) :=
        List.map_congr_left hread
    _ = (marked.toList.map fun p => rows.getD (marked.rank p) (0, 0)).map some := by
        rw [List.map_map]; rfl
    _ = rows.map some := by rw [map_getD_rank hr]

/-- Any other position reads the old row. -/
theorem getElem?_unmarked {p : Nat} (hp : p < n) (hnot : ¬ p ∈ marked) :
    indices[p]? = some (old p) := by
  simp [hindices, hp, hnot]

end

/-- The ranks of the unmarked positions among themselves are all the numbers below `n`. -/
theorem map_sub_rank_unmarked (hmarked : ∀ p ∈ marked, p < n + marked.size) :
    (((List.range (n + marked.size)).filter fun p => ¬ p ∈ marked).map fun p =>
      p - marked.rank p) = List.range n := by
  let others := (RowSet.positions (n + marked.size)).difference marked
  have hothers : ((List.range (n + marked.size)).filter fun p => ¬ p ∈ marked) = others.toList := by
    rw [RowSet.toList_difference, RowSet.toList_positions]
  have hranks : ∀ p ∈ others.toList, p - marked.rank p = others.rank p := by
    intro p hp
    have hlt := RowSet.mem_positions.1 (RowSet.mem_difference.1 (RowSet.mem_toList.1 hp)).1
    exact (rank_unmarked hmarked hlt).symm
  rw [hothers, List.map_congr_left hranks, RowSet.map_rank_toList, size_unmarked hmarked]

/-- Chunks with as many rows as there are marked positions are read completely: each marked position
takes their next row. What is inserted goes between the old rows, which all stay and keep their
order, and what is overwritten takes the place of the rows that are there. -/
theorem sources_cover (n : Nat) (marked : RowSet) (chunks : List Column)
    (hrows : (chunks.map Column.size).sum = marked.size) :
    Flattens chunks (chunkRows chunks) ∧
    ((∀ p ∈ marked, p < n + marked.size) →
      let indices := insertIndices n marked chunks
      indices.length = n + marked.size ∧
      (marked.toList.map fun p => indices[p]?) = (chunkRows chunks).map some ∧
      (((List.range (n + marked.size)).filter fun p => ¬ p ∈ marked).map fun p => indices[p]?) =
        (List.range n).map fun row => some (0, row)) ∧
    ((∀ p ∈ marked, p < n) →
      let indices := overwriteIndices n marked chunks
      indices.length = n ∧
      (marked.toList.map fun p => indices[p]?) = (chunkRows chunks).map some ∧
      ∀ p, p < n → ¬ p ∈ marked → indices[p]? = some (0, p)) := by
  have hr : (chunkRows chunks).length = marked.size := by
    rw [length_chunkRows, length_cellsOf, hrows]
  refine ⟨⟨fun _ _ => mem_chunkRows, pairwise_chunkRows chunks⟩, ?_, ?_⟩
  · intro hmarked indices
    have hindices := insertIndices_eq (n := n) hr
    refine ⟨by simp [indices, hindices], getElem?_marked hindices hr hmarked, ?_⟩
    have hread : ∀ p ∈ (List.range (n + marked.size)).filter fun p => ¬ p ∈ marked,
        indices[p]? = some (0, p - marked.rank p) := by
      intro p hp
      obtain ⟨hlt, hnot⟩ := List.mem_filter.1 hp
      exact getElem?_unmarked hindices (List.mem_range.1 hlt) (of_decide_eq_true hnot)
    rw [List.map_congr_left hread, ← map_sub_rank_unmarked hmarked, List.map_map]
    rfl
  · intro hmarked indices
    have hindices := overwriteIndices_eq (n := n) hr
    refine ⟨by simp [indices, hindices], getElem?_marked hindices hr hmarked, ?_⟩
    exact fun p hp hnot => getElem?_unmarked hindices hp hnot

/-- Three rows in two chunks, with an empty one between them. -/
def threeRows : List Column :=
  [⟨.int32, #[some (.int32 1), none], by decide⟩, .empty .int32,
    ⟨.int32, #[some (.int32 3)], by decide⟩]

/-- The positions 0, 2 and 3. -/
def scattered : RowSet := .ofIntervals [⟨0, 1⟩, ⟨2, 4⟩]

theorem sources_cover_emptyChunk :
    (threeRows.map Column.size).sum = scattered.size ∧
      (scattered.toList.map fun p => (insertIndices 2 scattered threeRows)[p]?) =
        [some (1, 0), some (1, 1), some (3, 0)] ∧
      (([1, 4] : List Nat).map fun p => (insertIndices 2 scattered threeRows)[p]?) =
        [some (0, 0), some (0, 1)] ∧
      (scattered.toList.map fun p => (overwriteIndices 5 scattered threeRows)[p]?) =
        [some (1, 0), some (1, 1), some (3, 0)] ∧
      (overwriteIndices 5 scattered threeRows)[4]? = some (0, 4) := by
  have hrows : (threeRows.map Column.size).sum = scattered.size := by decide
  have hsize : scattered.size = 3 := by decide
  have hlist : scattered.toList = [0, 2, 3] := by decide
  have hbelow : ∀ p ∈ scattered, p < 5 := by
    intro p hp
    have hmem := RowSet.mem_toList.2 hp
    rw [hlist] at hmem
    simp only [List.mem_cons, List.not_mem_nil, or_false] at hmem
    omega
  have hsources : chunkRows threeRows = [(1, 0), (1, 1), (3, 0)] := by decide
  obtain ⟨_, hinsert, _⟩ := sources_cover 2 scattered threeRows hrows
  obtain ⟨_, _, hoverwrite⟩ := sources_cover 5 scattered threeRows hrows
  obtain ⟨_, hmarked, hothers⟩ := hinsert (by simpa [hsize] using hbelow)
  obtain ⟨_, hreplaced, hkept⟩ := hoverwrite hbelow
  have hleft : ((List.range (2 + scattered.size)).filter fun p => ¬ p ∈ scattered) = [1, 4] := by
    decide
  rw [hsources] at hmarked hreplaced
  rw [hleft] at hothers
  refine ⟨hrows, hmarked, hothers, hreplaced, hkept 4 (by decide) ?_⟩
  rw [← RowSet.mem_toList, hlist]
  decide

end TickingTable
