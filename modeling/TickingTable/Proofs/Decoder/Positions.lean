import Mathlib
import TickingTable.Proofs.Decoder.Keyed

/-! What an update tells in positions, and that a copy of the table can be kept from that alone. -/

namespace TickingTable

/-- The contents of a table, which may have rows without having columns. -/
structure Contents where
  rows : Nat
  grid : List (List Cell)
deriving DecidableEq

def Table.contents (t : Table) : Contents := ⟨t.rows, t.grid⟩

namespace Contents

/-- The contents without the rows at some positions. The other rows stay in order. -/
def drop (x : Contents) (positions : RowSet) : Contents :=
  let kept := (List.range x.rows).filter fun p => decide (¬ p ∈ positions)
  ⟨kept.length, x.grid.map (pickCells kept)⟩

/-- The cells in the rows at some positions, column by column. -/
def pick (x : Contents) (positions : RowSet) : List (List Cell) :=
  x.grid.map (pickCells positions.toList)

/-- The cells of each column at the positions given for it. -/
def pickEach (x : Contents) (positions : List RowSet) : List (List Cell) :=
  List.zipWith (fun cells r => pickCells r.toList cells) x.grid positions

/-- The contents with new rows at some positions. -/
def insert (x : Contents) (positions : RowSet) (new : List (List Cell)) : Contents :=
  ⟨x.rows + positions.size, List.zipWith (spliceCells positions) x.grid new⟩

/-- The contents with new cells at the positions given for each column. -/
def overwrite (x : Contents) (positions : List RowSet) (new : List (List Cell)) : Contents :=
  ⟨x.rows, List.zipWith (fun base (y : RowSet × List Cell) => overwriteCells y.1 base y.2) x.grid
    (positions.zip new)⟩

/-- What becomes of a copy of a table by an update, of which only the positions and the cells at
these positions are looked at. -/
def replay (x : Contents) (u : Update) : Contents :=
  ((x.drop u.removed).insert u.added (u.afterAdds.contents.pick u.added)).overwrite u.modified
    (u.current.contents.pickEach u.modified)

end Contents

/-- An update tells in positions what a message does. -/
structure Update.Tells (u : Update) (x : Message) : Prop where
  schema : u.afterRemoves.schema = u.prev.schema ∧ u.afterAdds.schema = u.prev.schema ∧
    u.current.schema = u.prev.schema
  sizes : u.removed.size = x.metadata.removed.size ∧ u.added.size = x.metadata.added.size ∧
    u.modified.map RowSet.size = x.metadata.modified.map RowSet.size
  removed_lt : ∀ p, p ∈ u.removed → p < u.prev.rows
  removed : u.afterRemoves.contents = u.prev.contents.drop u.removed
  added_lt : ∀ p, p ∈ u.added → p < u.afterAdds.rows
  added : u.afterAdds.contents.drop u.added = u.afterRemoves.contents
  added_cells : u.afterAdds.contents.pick u.added = x.adds
  modified_length : u.modified.length = u.prev.schema.size
  modified_rows : u.current.rows = u.afterAdds.rows
  modified_lt : ∀ positions ∈ u.modified, ∀ p, p ∈ positions → p < u.current.rows
  modified_cells : u.current.contents.pickEach u.modified = x.mods
  unmodified : ∀ (c : Nat) (positions : RowSet), u.modified[c]? = some positions →
    ∀ p, ¬ p ∈ positions → u.current.cell p c = u.afterAdds.cell p c
  same : (u.removal = .same ↔ u.removed.isEmpty = true) ∧
    (u.addition = .same ↔ u.added.isEmpty = true) ∧
    (u.modification = .same ↔ ∀ positions ∈ u.modified, positions.isEmpty = true)

/-- What is seen of a cell depends on the cells of its column. -/
theorem Table.cell_eq (t : Table) (p c : Nat) : t.cell p c =
    match t.grid[c]? with
    | none => .error (.column c t.schema.size)
    | some cells => match cells[p]? with
      | none => .error (.row ⟨p, t.rows⟩)
      | some cell => .ok cell := by
  rw [cell, grid, List.getElem?_map, ← t.length_columns]
  cases hc : t.columns[c]? with
  | none => rfl
  | some column =>
    have hrows := t.sizes_eq column (List.mem_of_getElem? hc)
    simp only [Option.map_some, Column.cell, Array.getElem?_toList]
    by_cases hp : p < column.cells.size
    · simp only [dif_pos hp, Array.getElem?_eq_getElem hp]
    · simp only [dif_neg hp, Array.getElem?_eq_none (Nat.not_lt.1 hp), ← hrows]
      rfl

/-- The cells of a message are as many as its metadata declares. -/
structure Message.Complete (x : Message) (schema : Schema) : Prop where
  declared : x.metadata.modified.length = schema.size
  adds : x.adds.length = schema.size
  addsCount : ∀ l ∈ x.adds, l.length = x.metadata.added.size
  modsCount : x.mods.map List.length = x.metadata.modified.map RowSet.size

theorem PendingMessage.WellFormed.complete {p : PendingMessage} {schema : Schema}
    (h : p.WellFormed schema) (hc : p.isComplete = true) :
    Message.Complete ⟨p.metadata, p.adds, p.mods⟩ schema := by
  obtain ⟨hnone, hmods⟩ := PendingMessage.isComplete_iff.1 hc
  refine ⟨h.declared, ?_, ?_, ?_⟩
  · simp [adds, h.count]
  · intro l hl
    obtain ⟨d, hd, rfl⟩ := List.mem_map.1 hl
    have hlen := h.length_adds hd
    have hle := h.adds_le
    unfold addsOutstanding at hnone
    dsimp only
    omega
  · apply List.ext_getElem
    · simp [mods, h.count, h.declared]
    · intro i hi hi'
      have hd : i < p.deliveries.length := by simpa [mods] using hi
      have hm : i < p.metadata.modified.length := by simpa using hi'
      simp only [mods, List.getElem_map]
      rw [h.length_mods (List.getElem_mem hd)]
      exact hmods i _ _ (List.getElem?_eq_getElem hd) (List.getElem?_eq_getElem hm)

namespace Decoder.Applied

variable {d next : Decoder} {u : Update} {x : Message} {p : Nat}
  (h : Applied d x.metadata x.adds x.mods next u)

include h

theorem removed_contents : u.afterRemoves.contents = d.current.contents.drop u.removed := by
  rw [Table.contents, h.afterRemoves_eq, h.removal.rows, h.removal.grid, Table.keptRows_eq]
  rfl

/-- The positions of a column are those of keys that the message modifies in it. -/
theorem positionsOf?_modified {c : Nat} {positions : RowSet}
    (hc : u.modified[c]? = some positions) :
    ∃ modified, x.metadata.modified[c]? = some modified ∧
      next.keys.positionsOf? modified = some positions := by
  have hat := congrArg (fun l => l[c]?) h.modified
  simp only [List.getElem?_map, hc, Option.map_some] at hat
  obtain ⟨modified, hm, hpos⟩ := Option.map_eq_some_iff.1 hat.symm
  exact ⟨modified, hm, hpos⟩

theorem length_modified : u.modified.length = x.metadata.modified.length := by
  simpa using congrArg List.length h.modified

theorem sizes_modified : u.modified.map RowSet.size = x.metadata.modified.map RowSet.size := by
  apply List.ext_getElem
  · simp [h.length_modified]
  · intro c hc hc'
    have hlt : c < u.modified.length := by simpa using hc
    obtain ⟨modified, hm, hpos⟩ := h.positionsOf?_modified (List.getElem?_eq_getElem hlt)
    obtain ⟨_, rfl⟩ := List.getElem?_eq_some_iff.1 hm
    simpa using RowSet.size_positionsOf? hpos

theorem length_mods (hx : x.Complete d.schema) : x.mods.length = u.modified.length := by
  rw [h.length_modified]
  simpa using congrArg List.length hx.modsCount

section Aligned

variable (ha : d.Aligned)

include ha

theorem schema_afterRemoves : u.afterRemoves.schema = d.schema := by
  rw [h.afterRemoves_eq, h.removal.schema, ha.schema]

theorem schema_afterAdds : u.afterAdds.schema = d.schema :=
  h.addition.schema.trans (h.schema_afterRemoves ha)

theorem lt_rows_prev (hp : p ∈ u.removed) : p < d.current.rows := by
  rw [ha.rows]
  exact RowSet.lt_size_of_mem_positionsOf? h.removed hp

theorem rows_afterAdds : u.afterAdds.rows = next.keys.size := by
  rw [h.size_keys ha, ← h.rows_current ha, Update.current, h.modification.rows]

theorem lt_rows_afterAdds (hp : p ∈ u.added) : p < u.afterAdds.rows := by
  rw [h.rows_afterAdds ha]
  exact RowSet.lt_size_of_mem_positionsOf? h.added hp

theorem lt_rows_modified {positions : RowSet} (hc : positions ∈ u.modified) (hp : p ∈ positions) :
    p < u.afterAdds.rows := by
  obtain ⟨c, hc⟩ := List.getElem?_of_mem hc
  obtain ⟨modified, _, hpos⟩ := h.positionsOf?_modified hc
  rw [h.rows_afterAdds ha]
  exact RowSet.lt_size_of_mem_positionsOf? hpos hp

variable (hx : x.Complete d.schema)

include hx

theorem drop_added : u.afterAdds.contents.drop u.added = u.afterRemoves.contents := by
  have hall : ∀ p, p ∈ u.added → p < u.afterRemoves.rows + u.added.size := by
    intro p hp
    rw [← h.addition.rows]
    exact h.lt_rows_afterAdds ha hp
  have hkept : ((List.range (u.afterRemoves.rows + u.added.size)).filter
      fun p => decide (¬ p ∈ u.added)) =
      ((RowSet.positions (u.afterRemoves.rows + u.added.size)).difference u.added).toList := by
    rw [RowSet.toList_difference, RowSet.toList_positions]
  have hlen : u.afterRemoves.grid.length = x.adds.length := by
    rw [Table.length_grid, h.schema_afterRemoves ha, hx.adds]
  rw [Contents.drop, Table.contents, Update.afterAdds, h.addition.rows, h.addition.grid]
  dsimp only
  rw [hkept, RowSet.length_toList, size_unmarked hall, List.map_zipWith, Table.contents]
  congr 1
  apply zipWith_eq_left (Nat.le_of_eq hlen)
  intro base hbase new _
  exact pickCells_spliceCells_unmarked (Table.length_of_mem_grid hbase) hall

theorem pick_added : u.afterAdds.contents.pick u.added = x.adds := by
  have hlen : u.afterRemoves.grid.length = x.adds.length := by
    rw [Table.length_grid, h.schema_afterRemoves ha, hx.adds]
  rw [Contents.pick, Table.contents, Update.afterAdds, h.addition.grid, List.map_zipWith]
  apply zipWith_eq_right (Nat.le_of_eq hlen.symm)
  intro base hbase new hnew
  apply pickCells_spliceCells (Table.length_of_mem_grid hbase)
  · intro p hp
    rw [← h.addition.rows]
    exact h.lt_rows_afterAdds ha hp
  · rw [hx.addsCount new hnew, RowSet.size_positionsOf? h.added]

theorem length_grid_afterAdds : u.afterAdds.grid.length = u.modified.length := by
  rw [Table.length_grid, h.schema_afterAdds ha, h.length_modified, hx.declared]

theorem pickEach_modified : u.current.contents.pickEach u.modified = x.mods := by
  have hmods : x.mods.map List.length = u.modified.map RowSet.size :=
    hx.modsCount.trans h.sizes_modified.symm
  have hlen := h.length_mods hx
  have hgrid := h.length_grid_afterAdds ha hx
  rw [Contents.pickEach, Table.contents, Update.current, h.modification.grid]
  apply List.ext_getElem
  · simp [hlen, hgrid]
  · intro c hc hc'
    have hcu : c < u.modified.length := hlen ▸ hc'
    have hcg : c < u.afterAdds.grid.length := hgrid ▸ hcu
    have hsize : x.mods[c].length = u.modified[c].size := by
      have hat := congrArg (fun l => l[c]?) hmods
      simpa [hc', hcu] using hat
    simp only [List.getElem_zipWith, List.getElem_zip]
    exact pickCells_overwriteCells (Table.length_of_mem_grid (List.getElem_mem hcg))
      (fun p hp => h.lt_rows_modified ha (List.getElem_mem hcu) hp) hsize

theorem cell_unmodified {c : Nat} {positions : RowSet} (hc : u.modified[c]? = some positions)
    (hp : ¬ p ∈ positions) : u.current.cell p c = u.afterAdds.cell p c := by
  obtain ⟨hcu, _⟩ := List.getElem?_eq_some_iff.1 hc
  obtain ⟨base, hbase⟩ : ∃ base, u.afterAdds.grid[c]? = some base :=
    ⟨_, List.getElem?_eq_getElem (h.length_grid_afterAdds ha hx ▸ hcu)⟩
  obtain ⟨new, hnew⟩ : ∃ new, x.mods[c]? = some new :=
    ⟨_, List.getElem?_eq_getElem (h.length_mods hx ▸ hcu)⟩
  have hgrid : u.current.grid[c]? = some (overwriteCells positions base new) := by
    rw [Update.current, h.modification.grid]
    exact List.getElem?_zipWith_eq_some.2
      ⟨base, (positions, new), hbase, List.getElem?_zip_eq_some.2 ⟨hc, hnew⟩, rfl⟩
  have hrows : u.current.rows = u.afterAdds.rows := h.modification.rows
  simp only [Table.cell_eq, hgrid, hbase, getElem?_overwriteCells hp, hrows]

theorem tells : u.Tells x := by
  obtain ⟨_, _, _, hprev⟩ := h.header
  have hschema : u.prev.schema = d.schema := by rw [hprev, ha.schema]
  have hrows : u.current.rows = u.afterAdds.rows := h.modification.rows
  constructor
  · rw [hschema, h.schema_current, ha.schema]
    exact ⟨h.schema_afterRemoves ha, h.schema_afterAdds ha, rfl⟩
  · exact ⟨RowSet.size_positionsOf? h.removed, RowSet.size_positionsOf? h.added, h.sizes_modified⟩
  · intro p hp
    rw [hprev]
    exact h.lt_rows_prev ha hp
  · rw [hprev]
    exact h.removed_contents
  · exact fun p hp => h.lt_rows_afterAdds ha hp
  · exact h.drop_added ha hx
  · exact h.pick_added ha hx
  · rw [hschema, h.length_modified, hx.declared]
  · exact hrows
  · intro positions hmem p hp
    rw [hrows]
    exact h.lt_rows_modified ha hmem hp
  · exact h.pickEach_modified ha hx
  · exact fun c positions hc p hp => h.cell_unmodified ha hx hc hp
  · refine ⟨h.removal.same, h.addition.same, ?_⟩
    rw [h.modification.same, List.all_eq_true]

/-- A copy of the table before an update becomes a copy of the one after it. -/
theorem replay_eq : d.current.contents.replay u = u.current.contents := by
  have hinsert : u.afterRemoves.contents.insert u.added x.adds = u.afterAdds.contents := by
    rw [Contents.insert, Table.contents, Table.contents, Update.afterAdds, h.addition.rows,
      h.addition.grid]
  have hoverwrite : u.afterAdds.contents.overwrite u.modified x.mods = u.current.contents := by
    rw [Contents.overwrite, Table.contents, Table.contents, Update.current, h.modification.rows,
      h.modification.grid]
  rw [Contents.replay, ← h.removed_contents, h.pick_added ha hx, h.pickEach_modified ha hx,
    hinsert, hoverwrite]

end Aligned

end Decoder.Applied
namespace Decoder

variable {d next : Decoder} {f : Frame} {fs message : List Frame} {u : Update}

/-- The frames of the message in progress, once a frame is answered. A frame that does not fit the
schema is passed over. -/
def nextOpen (message : List Frame) : Frame × Answer → List Frame
  | (f, .ok none) => message ++ [f]
  | (_, .ok (some _)) => []
  | (_, .error e) => if e.blame = .frame then message else []

def openFrames (log : List (Frame × Answer)) : List Frame := log.foldl nextOpen []

/-- The updates among some answers. -/
def updates (answers : List Answer) : List Update :=
  answers.filterMap fun answer => answer.toOption.join

theorem Collects.step (hm : d.Collects message) (h : d.Orderly) :
    (d.step f).1.Collects (nextOpen message (f, (d.step f).2)) := by
  have htaken := taken_step d f
  generalize (d.step f).1 = next, (d.step f).2 = answer at htaken ⊢
  cases htaken with
  | ignored e he =>
    rw [nextOpen, if_pos (checkFrame_error he)]
    exact hm
  | dropped e hc he =>
    have hmessage : e.blame = .message := blames_received d f e he
    rw [nextOpen, if_neg (by simp [hmessage])]
    exact .nil rfl
  | refused p e hc _ _ he =>
    rw [nextOpen, if_neg (blames_apply d p e he)]
    exact .nil rfl
  | waiting p hc hp hwaits => exact hm.waiting h hc hp
  | completed p next u _ _ _ hu => exact .nil (pending_of_apply hu).1

theorem Collects.feed (hm : d.Collects message) (h : d.Orderly) (fs : List Frame) :
    (d.feed fs).Collects ((fs.zip (d.answers fs)).foldl nextOpen message) := by
  induction fs generalizing d message with
  | nil => exact hm
  | cons f fs ih => exact ih (hm.step h) (h.step f)

/-- An update applies the message that its frame completes. -/
theorem applied_of_step (h : d.Invariant) (hm : d.Collects message)
    (hu : (d.step f).2 = .ok (some u)) :
    ∃ x, Message.ofFrames? d.schema.size (message ++ [f]) = some x ∧ x.Complete d.schema ∧
      Applied d x.metadata x.adds x.mods (d.step f).1 u := by
  have htaken := taken_step d f
  rw [hu] at htaken
  generalize (d.step f).1 = next at htaken ⊢
  cases htaken with
  | completed p next u hc hp hcomplete happly =>
    have hwf := h.orderly.wellFormed_received hc hp
    exact ⟨_, hm.ofFrames?_eq h.orderly hc hp hcomplete, hwf.complete hcomplete,
      (applied_of_apply h.aligned hwf hcomplete happly).2⟩

theorem shiftsBelow_append {gs : List Frame} :
    d.ShiftsBelow (fs ++ gs) ↔ d.ShiftsBelow fs ∧ (d.feed fs).ShiftsBelow gs := by
  induction fs generalizing d with
  | nil => simp [ShiftsBelow]
  | cons f fs ih => simp only [List.cons_append, ShiftsBelow, ih, feed_cons, and_assoc]

theorem current_step (h : ∀ u, (d.step f).2 ≠ .ok (some u)) :
    (d.step f).1.current = d.current := by
  have htaken := taken_step d f
  generalize (d.step f).1 = next, (d.step f).2 = answer at htaken h ⊢
  cases htaken with
  | completed p next u _ _ _ _ => exact absurd rfl (h u)
  | _ => rfl

/-- A copy that follows all updates stays a copy. -/
theorem foldl_replay (h : d.Invariant) (hm : d.Collects message) (hb : d.ShiftsBelow fs) :
    (updates (d.answers fs)).foldl Contents.replay d.current.contents =
      (d.feed fs).current.contents := by
  induction fs generalizing d message with
  | nil => rfl
  | cons f fs ih =>
    have hrest := ih (h.step hb.1) (hm.step h.orderly) hb.2
    by_cases hu : ∃ u, (d.step f).2 = .ok (some u)
    · obtain ⟨u, hu⟩ := hu
      obtain ⟨x, _, hx, happlied⟩ := applied_of_step h hm hu
      have hcopy := happlied.replay_eq h.aligned hx
      rw [← happlied.current_eq] at hcopy
      have hnow : updates (d.answers (f :: fs)) = u :: updates ((d.step f).1.answers fs) := by
        simp [answers, updates, hu, Except.toOption]
      rw [hnow, List.foldl_cons, hcopy, hrest, feed_cons]
    · have hnone : ∀ u, (d.step f).2 ≠ .ok (some u) := fun u he => hu ⟨u, he⟩
      have hnow : updates (d.answers (f :: fs)) = updates ((d.step f).1.answers fs) := by
        rw [answers, updates, List.filterMap_cons, updates]
        rcases hanswer : (d.step f).2 with e | u
        · rfl
        · cases u with
          | none => rfl
          | some u => exact absurd hanswer (hnone u)
      rw [hnow, ← current_step hnone, hrest, feed_cons]

/-- Every update of a run tells in positions what the message does that its frame completes, and a
copy of the table that follows these updates is always a copy of the current table. -/
theorem update_tells (schema : Schema) (fs : List Frame) (hb : (start schema).ShiftsBelow fs) :
    (∀ earlier f later, fs = earlier ++ f :: later →
      let d := (start schema).feed earlier
      let message := openFrames (earlier.zip ((start schema).answers earlier)) ++ [f]
      ∀ u, (d.step f).2 = .ok (some u) → ∃ x, Message.ofFrames? schema.size message = some x ∧
        u.prev = d.current ∧ u.current = (d.step f).1.current ∧ u.Tells x) ∧
    (updates ((start schema).answers fs)).foldl Contents.replay (Table.empty schema).contents =
      ((start schema).feed fs).current.contents := by
  have hstart : (start schema).Collects [] := .nil rfl
  refine ⟨?_, foldl_replay (Invariant.start schema) hstart hb⟩
  rintro earlier f later rfl d message u hu
  have hearlier := (shiftsBelow_append.1 hb).1
  have h : d.Invariant := (Invariant.start schema).feed hearlier
  have hm := hstart.feed (Invariant.start schema).orderly earlier
  have hschema : d.schema = schema := schema_feed _ earlier
  obtain ⟨x, hx, hcomplete, happlied⟩ := applied_of_step h hm hu
  rw [hschema] at hx
  exact ⟨x, hx, happlied.header.2.2.2, happlied.current_eq.symm,
    happlied.tells h.aligned hcomplete⟩

/-- Removes the row with key 0, adds one with key 3 and modifies that one at once. -/
def swap : UpdateMetadata := ⟨1, 1, false, .ofKeys [0], [], .ofKeys [3], [.ofKeys [3]]⟩

/-- A frame that starts the swap and brings the added row. -/
def swapping : Frame := ⟨[⟨.int32, #[some (.int32 8)], by decide⟩], [1], some swap.encode⟩

/-- A frame that brings the modified row. -/
def swapped : Frame := ⟨[⟨.int32, #[some (.int32 9)], by decide⟩], [1], none⟩

theorem shiftsBelow_swap : (start oneColumn).ShiftsBelow [opening, filling, swapping, swapped] := by
  have hupdate : swapping.update? = some swap := rfl
  have hopened : (start oneColumn).ShiftsBelow [opening, filling] :=
    shiftsBelow_of_makeRoom (by simp)
  refine shiftsBelow_append.2 ⟨hopened, shiftsBelow_of_forall ?_⟩
  intro f hf m hm s hs
  rcases List.mem_pair.1 hf with rfl | rfl
  · rw [hupdate] at hm
    cases hm
    cases hs
  · cases hm

/-- An update in all three steps, and a copy that follows it. -/
theorem update_tells_swap :
    let fs := [opening, filling, swapping]
    (start oneColumn).ShiftsBelow (fs ++ [swapped]) ∧
      (∃ u, (((start oneColumn).feed fs).step swapped).2 = .ok (some u) ∧
        u.Tells ⟨swap, [[some (.int32 8)]], [[some (.int32 9)]]⟩) ∧
      (updates ((start oneColumn).answers (fs ++ [swapped]))).foldl Contents.replay
        (Table.empty oneColumn).contents = ⟨1, [[some (.int32 9)]]⟩ := by
  intro fs
  obtain ⟨htells, hreplay⟩ := update_tells oneColumn (fs ++ [swapped]) shiftsBelow_swap
  refine ⟨shiftsBelow_swap, ?_, ?_⟩
  · have hsome : (((start oneColumn).feed fs).step swapped).2.toOption.join.isSome = true := by cbv
    have hmessage : Message.ofFrames? oneColumn.size (openFrames (fs.zip
        ((start oneColumn).answers fs)) ++ [swapped]) =
        some ⟨swap, [[some (.int32 8)]], [[some (.int32 9)]]⟩ := by cbv
    obtain ⟨u, hu⟩ := Option.isSome_iff_exists.1 hsome
    have hstep : (((start oneColumn).feed fs).step swapped).2 = .ok (some u) := by
      generalize (((start oneColumn).feed fs).step swapped).2 = answer at hu ⊢
      rcases answer with e | _ | u'
      · cases hu
      · cases hu
      · cases hu
        rfl
    obtain ⟨x, hx, _, _, hxu⟩ := htells fs swapped [] rfl u hstep
    rw [hmessage] at hx
    cases hx
    exact ⟨u, hstep, hxu⟩
  · rw [hreplay]
    cbv

end Decoder
end TickingTable
