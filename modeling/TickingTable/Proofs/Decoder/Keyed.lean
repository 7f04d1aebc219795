import TickingTable.Proofs.Decoder.Delivered

/-! A decoder holds the table that its messages make of the empty one, told key by key. -/

namespace TickingTable

/-- A table as a finite map from keys to rows, with the cells of each row. -/
abbrev KeyedRows := List (Nat × List Cell)

/-- A message all of whose rows are there: the cells of the added rows and of the modified ones,
column by column. -/
structure Message where
  metadata : UpdateMetadata
  adds : List (List Cell)
  mods : List (List Cell)

/-- The message that the first of some frames starts and the last of them completes. In each column
the added rows come first. -/
def Message.ofFrames? (n : Nat) (fs : List Frame) : Option Message := do
  let m ← (← fs.head?).update?
  let cells := delivered n fs
  return ⟨m, cells.map (List.take m.added.size), cells.map (List.drop m.added.size)⟩

namespace KeyedRows

/-- A row with its cell replaced in each column that modifies the key. -/
def overwriteRow (modified : List RowSet) (mods : List (List Cell)) (k : Nat) (row : List Cell) :
    List Cell :=
  List.zipWith (fun cell (x : RowSet × List Cell) =>
    if k ∈ x.1 then x.2.getD (x.1.rank k) none else cell) row (modified.zip mods)

def remove (t : KeyedRows) (removed : RowSet) : KeyedRows := t.filter fun x => ¬ x.1 ∈ removed

def rename (t : KeyedRows) (shifts : List ShiftRange) : KeyedRows :=
  t.map fun x => (ShiftRange.moveKey shifts x.1, x.2)

/-- Each added key gets the delivered row of its rank. -/
def insert (t : KeyedRows) (added : RowSet) (adds : List (List Cell)) : KeyedRows :=
  t.remove added ++ added.toList.map fun k => (k, rowOf adds (added.rank k))

def overwrite (t : KeyedRows) (modified : List RowSet) (mods : List (List Cell)) : KeyedRows :=
  t.map fun x => (x.1, overwriteRow modified mods x.1 x.2)

/-- What a message does to a table. -/
def update (t : KeyedRows) (x : Message) : KeyedRows :=
  (((t.remove x.metadata.removed).rename x.metadata.shifts).insert x.metadata.added
    x.adds).overwrite x.metadata.modified x.mods

theorem update_perm {t t' : KeyedRows} (h : t.Perm t') (x : Message) :
    (t.update x).Perm (t'.update x) :=
  ((((h.filter _).map _).filter _).append_right _).map _

end KeyedRows

namespace Decoder

variable {d next : Decoder} {u : Update} {m : UpdateMetadata} {adds mods : List (List Cell)}
  {t : KeyedRows} {j k : Nat}

/-- The messages that frames complete, told by the answers. The frames `message` belong to a message
in progress. A frame that does not fit the schema is passed over, and any other error ends the
message. -/
def completed (n : Nat) : List Frame → List (Frame × Answer) → List Message
  | _, [] => []
  | message, (f, .ok none) :: log => completed n (message ++ [f]) log
  | message, (f, .ok (some _)) :: log =>
    (Message.ofFrames? n (message ++ [f])).toList ++ completed n [] log
  | message, (_, .error e) :: log => completed n (if e.blame = .frame then message else []) log

/-- The keys of a decoder are those of the map, and row `i` of its table is the row of the `i`-th
smallest key. -/
structure Represents (d : Decoder) (t : KeyedRows) : Prop where
  nodup : (t.map Prod.fst).Nodup
  keys : ∀ k, k ∈ d.keys ↔ k ∈ t.map Prod.fst
  rows : d.current.rows = d.keys.size
  row : ∀ i k, d.keys.toList[i]? = some k → (k, d.current.row i) ∈ t

/-- The rows of a decoder with their keys. -/
def keyedRows (d : Decoder) : KeyedRows :=
  d.keys.toList.map fun k => (k, d.current.row (d.keys.rank k))

theorem represents_of_perm (ha : d.Aligned) (h : t.Perm d.keyedRows) : d.Represents t := by
  have hfst : d.keyedRows.map Prod.fst = d.keys.toList := by
    rw [keyedRows, List.map_map]
    exact List.map_id _
  have hkeys : (t.map Prod.fst).Perm d.keys.toList := hfst ▸ h.map Prod.fst
  refine ⟨hkeys.nodup_iff.2 d.keys.nodup_toList, ?_, ha.rows, ?_⟩
  · intro k
    rw [hkeys.mem_iff, RowSet.mem_toList]
  · intro i k hi
    rw [h.mem_iff, keyedRows, List.mem_map]
    refine ⟨k, List.mem_of_getElem? hi, ?_⟩
    rw [RowSet.rank_eq_of_getElem? hi]

namespace Applied

open KeyedRows

/-- A row is an added one or stood below as many added ones as there are smaller added keys. -/
theorem row_afterAdds (h : Applied d m adds mods next u) (ha : d.Aligned)
    (hadds : adds.length = d.schema.size) (hk : k ∈ next.keys) :
    u.afterAdds.row (next.keys.rank k) =
      if k ∈ m.added then rowOf adds (m.added.rank k)
      else u.afterRemoves.row (next.keys.rank k - m.added.rank k) := by
  have hgrid : u.afterRemoves.grid.length = adds.length := by
    rw [Table.length_grid, hadds, h.afterRemoves_eq, h.removal.schema, ha.schema]
  have hlt : next.keys.rank k < u.afterRemoves.rows + u.added.size := by
    have := RowSet.rank_lt_size hk
    rw [h.size_keys ha] at this
    rwa [h.rows_afterRemoves ha, RowSet.size_positionsOf? h.added]
  rw [Table.row, Update.afterAdds, h.addition.grid,
    rowOf_spliceCells (fun _ => Table.length_of_mem_grid) hgrid hlt,
    RowSet.rank_positionsOf? h.added hk]
  simp only [RowSet.rank_mem_positionsOf? h.added hk, Table.row]

theorem row_added (h : Applied d m adds mods next u) (ha : d.Aligned)
    (hadds : adds.length = d.schema.size) (hk : k ∈ m.added) :
    u.afterAdds.row (next.keys.rank k) = rowOf adds (m.added.rank k) := by
  obtain ⟨shifted, _, _, hkeys⟩ := h.keys
  have hkn : k ∈ next.keys := by
    rw [hkeys, RowSet.mem_union]
    exact Or.inr hk
  rw [h.row_afterAdds ha hadds hkn, if_pos hk]

/-- A row that is kept goes with its key. -/
theorem row_kept (h : Applied d m adds mods next u) (ha : d.Aligned)
    (hadds : adds.length = d.schema.size) (hj : j ∈ d.keys.difference m.removed) :
    u.afterAdds.row (next.keys.rank (ShiftRange.moveKey m.shifts j)) =
      d.current.row (d.keys.rank j) := by
  obtain ⟨shifted, hshift, hnew, hkeys⟩ := h.keys
  have hdiff := ha.lt_of_mem_difference m.removed
  have hmoved := (RowSet.mem_shift? hdiff hshift).2 ⟨j, hj, rfl⟩
  have hkn : ShiftRange.moveKey m.shifts j ∈ next.keys := by
    rw [hkeys, RowSet.mem_union]
    exact Or.inl hmoved
  have hget : (Table.keptRows d.current.rows u.removed)[(d.keys.difference m.removed).rank j]? =
      some (d.keys.rank j) := by
    rw [ha.rows, keptRows_eq_map_rank h.removed, List.getElem?_map, RowSet.getElem?_rank hj]
    rfl
  obtain ⟨hlt, hget⟩ := List.getElem?_eq_some_iff.1 hget
  -- The added keys below shift the row down, and the shifts leave its rank alone.
  have hrank : next.keys.rank (ShiftRange.moveKey m.shifts j) -
      m.added.rank (ShiftRange.moveKey m.shifts j) = (d.keys.difference m.removed).rank j := by
    rw [hkeys, RowSet.rank_union fun k hk hk' => hnew k hk' hk, Nat.add_sub_cancel,
      RowSet.rank_shift? hdiff hshift hj]
  rw [h.row_afterAdds ha hadds hkn, if_neg fun hadded => hnew _ hadded hmoved, hrank, Table.row,
    h.afterRemoves_eq, h.removal.grid, rowOf_pickCells hlt, hget, Table.row]

/-- Each column overwrites the rows of its modified keys. -/
theorem row_current (h : Applied d m adds mods next u) (ha : d.Aligned) (hk : k ∈ next.keys) :
    u.current.row (next.keys.rank k) =
      overwriteRow m.modified mods k (u.afterAdds.row (next.keys.rank k)) := by
  have hlen : u.modified.length = m.modified.length := by
    simpa using congrArg List.length h.modified
  have hlt : next.keys.rank k < u.afterAdds.rows := by
    have := RowSet.rank_lt_size hk
    rw [h.size_keys ha, ← h.rows_current ha, Update.current, h.modification.rows] at this
    exact this
  rw [Table.row, Update.current, h.modification.grid]
  apply List.ext_getElem
  · simp [rowOf, overwriteRow, Table.row, hlen]
  · intro c hc hc'
    have hcu : c < u.modified.length := by
      simp only [rowOf, List.length_map, List.length_zipWith, List.length_zip] at hc
      omega
    have hcm : c < m.modified.length := hlen ▸ hcu
    have hpos : next.keys.positionsOf? m.modified[c] = some u.modified[c] := by
      have hat := congrArg (fun l => l[c]?) h.modified
      simpa [hcu, hcm, eq_comm] using hat
    simp only [rowOf, overwriteRow, Table.row, List.getElem_map, List.getElem_zipWith,
      List.getElem_zip]
    rw [getD_overwriteCells ((Table.length_of_mem_grid (List.getElem_mem _)).symm ▸ hlt)]
    simp only [RowSet.rank_mem_positionsOf? hpos hk, RowSet.rank_positionsOf? hpos hk]

/-- Applying a message does to the rows of a decoder what the message does to a map. -/
theorem keyedRows_perm (h : Applied d m adds mods next u) (ha : d.Aligned)
    (hadds : adds.length = d.schema.size) :
    (d.keyedRows.update ⟨m, adds, mods⟩).Perm next.keyedRows := by
  obtain ⟨shifted, hshift, hnew, hkeys⟩ := h.keys
  have hdiff := ha.lt_of_mem_difference m.removed
  have hkept : (d.keyedRows.remove m.removed).rename m.shifts =
      (d.keys.difference m.removed).toList.map fun j =>
        (ShiftRange.moveKey m.shifts j, d.current.row (d.keys.rank j)) := by
    rw [remove, keyedRows, List.filter_map, rename, List.map_map, RowSet.toList_difference]
    rfl
  have hfresh : ((d.keyedRows.remove m.removed).rename m.shifts).remove m.added =
      (d.keyedRows.remove m.removed).rename m.shifts := by
    rw [hkept, remove, List.filter_eq_self]
    intro x hx
    obtain ⟨j, hj, rfl⟩ := List.mem_map.1 hx
    have hmoved := (RowSet.mem_shift? hdiff hshift).2 ⟨j, RowSet.mem_toList.1 hj, rfl⟩
    simpa using fun hadded => hnew _ hadded hmoved
  have hrow : ∀ k, k ∈ next.keys → next.current.row (next.keys.rank k) =
      overwriteRow m.modified mods k (u.afterAdds.row (next.keys.rank k)) := by
    intro k hk
    rw [h.current_eq, h.row_current ha hk]
  have hunion := RowSet.toList_union_perm fun k hk hk' => hnew k hk' hk
  rw [← hkeys, RowSet.toList_shift? hdiff hshift] at hunion
  refine List.Perm.trans (List.Perm.of_eq ?_)
    (hunion.map fun k => (k, next.current.row (next.keys.rank k))).symm
  rw [update, KeyedRows.insert, hfresh, hkept, overwrite, List.map_append, List.map_append,
    List.map_map, List.map_map, List.map_map]
  congr 1 <;> apply List.map_congr_left
  · intro j hj
    have hj := RowSet.mem_toList.1 hj
    have hk : ShiftRange.moveKey m.shifts j ∈ next.keys := by
      rw [hkeys, RowSet.mem_union]
      exact Or.inl ((RowSet.mem_shift? hdiff hshift).2 ⟨j, hj, rfl⟩)
    simp only [Function.comp_apply, hrow _ hk, h.row_kept ha hadds hj]
  · intro k hk
    have hk := RowSet.mem_toList.1 hk
    have hkn : k ∈ next.keys := by
      rw [hkeys, RowSet.mem_union]
      exact Or.inr hk
    simp only [Function.comp_apply, hrow _ hkn, h.row_added ha hadds hk]

end Applied

theorem Collects.waiting {f : Frame} {message : List Frame} {p : PendingMessage}
    (hm : d.Collects message) (h : d.Orderly) (hc : f.Conforms d.schema)
    (hp : d.received f = .ok p) : { d with pending := some p }.Collects (message ++ [f]) := by
  obtain ⟨hhead, hcells⟩ := hm.received h hc hp
  refine ⟨by simp, ?_, ?_, ?_⟩
  · intro g hg
    rcases List.mem_append.1 hg with hg | hg
    · exact hm.conforms g hg
    · obtain rfl := List.mem_singleton.1 hg
      exact hc
  · intro q hq
    cases hq
    exact hhead
  · intro q hq
    cases hq
    exact hcells

theorem Collects.ofFrames?_eq {f : Frame} {message : List Frame} {p : PendingMessage}
    (hm : d.Collects message) (h : d.Orderly) (hc : f.Conforms d.schema)
    (hp : d.received f = .ok p) (hcomplete : p.isComplete = true) :
    Message.ofFrames? d.schema.size (message ++ [f]) = some ⟨p.metadata, p.adds, p.mods⟩ := by
  obtain ⟨hhead, hcells⟩ := hm.received h hc hp
  have hwf := h.wellFormed_received hc hp
  have hnone := (PendingMessage.isComplete_iff.1 hcomplete).1
  obtain ⟨g, hg, hupdate⟩ := Option.bind_eq_some_iff.1 hhead
  rw [hwf.adds_eq_take hnone, hwf.mods_eq_drop hnone, hcells]
  simp [Message.ofFrames?, hg, hupdate]

theorem perm_feed_completed {fs message : List Frame} (h : d.Invariant) (hb : d.ShiftsBelow fs)
    (hm : d.Collects message) (ht : t.Perm d.keyedRows) :
    ((completed d.schema.size message (fs.zip (d.answers fs))).foldl KeyedRows.update t).Perm
      (d.feed fs).keyedRows := by
  induction fs generalizing d message t with
  | nil => exact ht
  | cons f fs ih =>
    have hinv := h.step hb.1
    have hschema := schema_step d f
    rw [answers, List.zip_cons_cons, feed_cons]
    have htaken := taken_step d f
    have hrest := hb.2
    generalize (d.step f).1 = next, (d.step f).2 = answer at htaken hinv hrest hschema ⊢
    rw [← hschema]
    cases htaken with
    | ignored e he =>
      rw [completed, if_pos (checkFrame_error he)]
      exact ih hinv hrest hm ht
    | dropped e hc he =>
      have hmessage : e.blame = .message := blames_received d f e he
      rw [completed, if_neg (by simp [hmessage])]
      exact ih hinv hrest (.nil rfl) ht
    | refused p e hc _ _ he =>
      rw [completed, if_neg (blames_apply d p e he)]
      exact ih hinv hrest (.nil rfl) ht
    | waiting p hc hp hwaits =>
      rw [completed]
      exact ih hinv hrest (hm.waiting h.orderly hc hp) ht
    | completed p next u hc hp hcomplete hu =>
      have hwf := h.orderly.wellFormed_received hc hp
      have happlied := (applied_of_apply h.aligned hwf hcomplete hu).2
      have hadds : p.adds.length = d.schema.size := by
        rw [PendingMessage.adds, List.length_map, hwf.count]
      rw [completed, hschema, hm.ofFrames?_eq h.orderly hc hp hcomplete, Option.toList_some,
        List.singleton_append, List.foldl_cons, ← hschema]
      exact ih hinv hrest (.nil happlied.pending_eq)
        ((KeyedRows.update_perm ht _).trans (happlied.keyedRows_perm h.aligned hadds))

/-- After any frames whose shifts spare the reserved key, a decoder represents the map that the
messages which these frames complete make of the empty map. -/
theorem represents_feed (schema : Schema) (fs : List Frame) (hb : (start schema).ShiftsBelow fs) :
    ((start schema).feed fs).Represents
      ((completed schema.size [] (fs.zip ((start schema).answers fs))).foldl KeyedRows.update []) :=
  represents_of_perm ((Invariant.start schema).feed hb).aligned
    (perm_feed_completed (Invariant.start schema) hb (.nil rfl) (List.Perm.refl _))

/-- Key 0 is added, moved away and added again. -/
theorem represents_feed_makeRoom :
    let fs := [opening, filling, opening, filling]
    (start oneColumn).ShiftsBelow fs ∧
      ((start oneColumn).feed fs).Represents [(5, [some (.int32 7)]), (0, [some (.int32 7)])] := by
  intro fs
  have hb : (start oneColumn).ShiftsBelow fs := shiftsBelow_of_makeRoom (by simp [fs])
  have hmap : (completed oneColumn.size [] (fs.zip ((start oneColumn).answers fs))).foldl
      KeyedRows.update [] = [(5, [some (.int32 7)]), (0, [some (.int32 7)])] := by cbv
  exact ⟨hb, hmap ▸ represents_feed oneColumn fs hb⟩

end Decoder
end TickingTable
