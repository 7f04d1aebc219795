import TickingTable.Proofs.Decoder.Pending
import TickingTable.Proofs.Revision

/-! Overwriting the modified cells, column by column. -/

namespace TickingTable

/-- The number of the first column, from `index` on, with a modified key that is not there. -/
def firstUnknown? (keys : RowSet) (index : Nat) : List RowSet → Option Nat
  | [] => none
  | modified :: declared =>
    if ∀ k ∈ modified.toList, k ∈ keys then firstUnknown? keys (index + 1) declared else some index

theorem firstUnknown?_eq_none {keys : RowSet} {index : Nat} {declared : List RowSet} :
    firstUnknown? keys index declared = none ↔
      ∀ modified ∈ declared, ∀ k, k ∈ modified → k ∈ keys := by
  induction declared generalizing index with
  | nil => simp [firstUnknown?]
  | cons modified declared ih =>
    rw [firstUnknown?, List.forall_mem_cons]
    split
    · next h => simp_all
    · next h => simp_all

theorem firstUnknown?_eq_some {keys : RowSet} {index c : Nat} {declared : List RowSet}
    (h : firstUnknown? keys index declared = some c) : ∃ i, c = index + i ∧
      (∃ modified, declared[i]? = some modified ∧ ¬ ∀ k, k ∈ modified → k ∈ keys) ∧
      ∀ j < i, ∀ earlier, declared[j]? = some earlier → ∀ k, k ∈ earlier → k ∈ keys := by
  induction declared generalizing index with
  | nil => simp [firstUnknown?] at h
  | cons modified declared ih =>
    rw [firstUnknown?] at h
    split at h
    · next hk =>
      obtain ⟨i, rfl, hunknown, hearlier⟩ := ih h
      refine ⟨i + 1, by omega, hunknown, fun j hj earlier he => ?_⟩
      cases j with
      | zero =>
        cases he
        simpa using hk
      | succ j => exact hearlier j (by omega) earlier he
    · next hk =>
      cases h
      exact ⟨0, rfl, ⟨modified, rfl, by simpa using hk⟩, fun j hj => absurd hj (Nat.not_lt_zero j)⟩

namespace Decoder

/-- What overwriting the modified cells of a column gives. -/
structure Overwritten (keys modified : RowSet) (base : Column) (new : List Cell)
    (change : RowSet × Option Column) : Prop where
  positions : keys.positionsOf? modified = some change.1
  same : change.2.isNone = change.1.isEmpty
  contents : (change.2.getD base).contents =
    (base.type, overwriteCells change.1 base.cells.toList new)

/-- The modified cells of a column, all of which have arrived. -/
def ModsComplete : List Delivery → List RowSet → List Column → Prop :=
  Columnwise fun d modified base =>
    (∀ c ∈ d.modChunks, c.type = base.type) ∧ (cellsOf d.modChunks).length = modified.size

def modifyColumn (keys : RowSet) (index : Nat) (modified : RowSet) (d : Delivery) (base : Column) :
    Except ProtocolError (RowSet × Option Column) := do
  let some positions := keys.positionsOf? modified | throw (.modifiedRowNotFound index)
  let changed ← if positions.isEmpty then pure none
    else some <$> base.interleave d.modChunks (overwriteIndices base.size positions d.modChunks)
  return (positions, changed)

theorem modifyColumns_cons (keys : RowSet) (index : Nat) (modified : RowSet)
    (declared : List RowSet) (d : Delivery) (deliveries : List Delivery) (base : Column)
    (columns : List Column) :
    modifyColumns keys index (modified :: declared) (d :: deliveries) (base :: columns) = (do
      let change ← modifyColumn keys index modified d base
      return change :: (← modifyColumns keys (index + 1) declared deliveries columns)) := by
  rw [modifyColumns, modifyColumn]
  cases keys.positionsOf? modified with
  | none => rfl
  | some positions =>
    dsimp only
    split
    · rfl
    · cases base.interleave d.modChunks (overwriteIndices base.size positions d.modChunks) <;> rfl

theorem modifyColumn_eq_ok {keys modified : RowSet} {index : Nat} {d : Delivery} {base : Column}
    (ht : ∀ c ∈ d.modChunks, c.type = base.type)
    (hn : (cellsOf d.modChunks).length = modified.size) (hk : ∀ k, k ∈ modified → k ∈ keys) :
    ∃ change, modifyColumn keys index modified d base = .ok change ∧
      Overwritten keys modified base (cellsOf d.modChunks) change := by
  obtain ⟨positions, hpos⟩ := RowSet.positionsOf?_of_subset hk
  simp only [modifyColumn, hpos]
  split
  · next hempty =>
    refine ⟨(positions, none), rfl, hpos, hempty.symm, ?_⟩
    rw [overwriteCells_of_isEmpty hempty]
    rfl
  · next hne =>
    have hsize := hn.trans (RowSet.size_positionsOf? hpos).symm
    obtain ⟨c, hc, hct, hcc⟩ := Column.interleave_eq_ok ht (addressed?_overwriteIndices hsize)
    rw [hc]
    exact ⟨(positions, some c), rfl, hpos, by simpa using hne, Prod.ext hct hcc⟩

theorem modifyColumns_unknown {keys : RowSet} {index c : Nat} {declared : List RowSet}
    {deliveries : List Delivery} {columns : List Column}
    (hd : deliveries.length = declared.length) (hc : columns.length = declared.length)
    (h : ModsComplete deliveries declared columns)
    (hunknown : firstUnknown? keys index declared = some c) :
    modifyColumns keys index declared deliveries columns = .error (.modifiedRowNotFound c) := by
  induction declared generalizing index deliveries columns with
  | nil => simp [firstUnknown?] at hunknown
  | cons modified declared ih =>
    obtain ⟨d, deliveries, rfl⟩ := List.exists_cons_of_length_eq_add_one hd
    obtain ⟨base, columns, rfl⟩ := List.exists_cons_of_length_eq_add_one hc
    obtain ⟨⟨ht, hn⟩, hrest⟩ := columnwise_cons.1 h
    rw [modifyColumns_cons]
    rw [firstUnknown?] at hunknown
    split at hunknown
    · next hk =>
      obtain ⟨change, hchange, _⟩ := @modifyColumn_eq_ok keys modified index d base ht hn
        fun k hkm => hk k (RowSet.mem_toList.2 hkm)
      rw [hchange, ih (by simpa using hd) (by simpa using hc) hrest hunknown]
      rfl
    · next hk =>
      obtain rfl := Option.some.inj hunknown
      have hnone : keys.positionsOf? modified = none := by
        rw [RowSet.positionsOf?_eq_none]
        simpa using hk
      simp only [modifyColumn, hnone]
      rfl

/-- The columns of a table after some of their cells were overwritten. -/
def changedColumns (columns : List Column) (changes : List (RowSet × Option Column)) :
    List Column :=
  List.zipWith (fun base (change : RowSet × Option Column) => change.2.getD base) columns changes

/-- Every column is overwritten with what was delivered for it. -/
structure AllOverwritten (keys : RowSet) (declared : List RowSet) (deliveries : List Delivery)
    (columns : List Column) (changes : List (RowSet × Option Column)) : Prop where
  length_declared : declared.length = columns.length
  length_deliveries : deliveries.length = columns.length
  length_changes : changes.length = columns.length
  each : ∀ (i : Nat) (hi : i < columns.length),
    Overwritten keys declared[i] columns[i] (cellsOf deliveries[i].modChunks) changes[i]

section

variable {keys : RowSet} {index : Nat} {declared : List RowSet} {deliveries : List Delivery}
  {columns : List Column} {changes : List (RowSet × Option Column)}

theorem AllOverwritten.cons {modified : RowSet} {d : Delivery} {base : Column}
    {change : RowSet × Option Column}
    (h : Overwritten keys modified base (cellsOf d.modChunks) change)
    (hs : AllOverwritten keys declared deliveries columns changes) :
    AllOverwritten keys (modified :: declared) (d :: deliveries) (base :: columns)
      (change :: changes) where
  length_declared := congrArg (· + 1) hs.length_declared
  length_deliveries := congrArg (· + 1) hs.length_deliveries
  length_changes := congrArg (· + 1) hs.length_changes
  each := by
    intro i hi
    cases i with
    | zero => exact h
    | succ i => exact hs.each i (Nat.lt_of_succ_lt_succ hi)

theorem modifyColumns_eq_ok (hd : deliveries.length = declared.length)
    (hc : columns.length = declared.length) (h : ModsComplete deliveries declared columns)
    (hk : ∀ modified ∈ declared, ∀ k, k ∈ modified → k ∈ keys) :
    ∃ changes, modifyColumns keys index declared deliveries columns = .ok changes ∧
      AllOverwritten keys declared deliveries columns changes := by
  induction declared generalizing index deliveries columns with
  | nil => exact ⟨[], rfl, hc.symm, hd.trans hc.symm, hc.symm, by simp [hc]⟩
  | cons modified declared ih =>
    obtain ⟨d, deliveries, rfl⟩ := List.exists_cons_of_length_eq_add_one hd
    obtain ⟨base, columns, rfl⟩ := List.exists_cons_of_length_eq_add_one hc
    obtain ⟨⟨ht, hn⟩, hrest⟩ := columnwise_cons.1 h
    obtain ⟨hk, hks⟩ := List.forall_mem_cons.1 hk
    obtain ⟨change, hchange, hover⟩ := @modifyColumn_eq_ok keys modified index d base ht hn hk
    obtain ⟨changes, hchanges, hovers⟩ :=
      @ih (index + 1) deliveries columns (by simpa using hd) (by simpa using hc) hrest hks
    refine ⟨change :: changes, ?_, hovers.cons hover⟩
    rw [modifyColumns_cons, hchange, hchanges]
    rfl

namespace AllOverwritten

variable (h : AllOverwritten keys declared deliveries columns changes)

include h

theorem positions : (changes.map Prod.fst).map some = declared.map keys.positionsOf? := by
  apply List.ext_getElem
  · simp [h.length_changes, h.length_declared]
  · intro i hi hi'
    simp only [List.getElem_map]
    exact (h.each i (h.length_changes ▸ by simpa using hi)).positions.symm

/-- No column changes just if no position is overwritten. -/
theorem same : (changes.all fun change => change.2.isNone) =
    (changes.map Prod.fst).all RowSet.isEmpty := by
  rw [List.all_map, Bool.eq_iff_iff, List.all_eq_true, List.all_eq_true]
  apply forall₂_congr
  intro change hc
  obtain ⟨i, hi, rfl⟩ := List.mem_iff_getElem.1 hc
  rw [(h.each i (h.length_changes ▸ hi)).same]
  rfl

theorem types : (changedColumns columns changes).map Column.type = columns.map Column.type := by
  apply List.ext_getElem
  · simp [changedColumns, h.length_changes]
  · intro i hi hi'
    simp only [changedColumns, List.getElem_map, List.getElem_zipWith]
    exact congrArg Prod.fst (h.each i (by simpa using hi')).contents

theorem cells : (changedColumns columns changes).map (fun c => c.cells.toList) =
    List.zipWith (fun base (x : RowSet × List Cell) => overwriteCells x.1 base x.2)
      (columns.map fun c => c.cells.toList)
      ((changes.map Prod.fst).zip (deliveries.map fun d => cellsOf d.modChunks)) := by
  apply List.ext_getElem
  · simp [changedColumns, h.length_deliveries, h.length_changes]
  · intro i hi hi'
    have hi : i < columns.length := by
      simp only [changedColumns, List.length_map, List.length_zipWith] at hi
      omega
    simp only [changedColumns, List.getElem_map, List.getElem_zipWith, List.getElem_zip]
    exact congrArg Prod.snd (h.each i hi).contents

end AllOverwritten

theorem modification_eq_ok {t : Table}
    (h : AllOverwritten keys declared deliveries t.columns changes) :
    ∃ r, revise (changes.all fun change => change.2.isNone)
        ((Table.ofColumns t.schema (changedColumns t.columns changes) t.rows).mapError .table) =
          .ok r ∧
      r.Gives t ((changes.map Prod.fst).all RowSet.isEmpty) t.rows
        (List.zipWith (fun base (x : RowSet × List Cell) => overwriteCells x.1 base x.2) t.grid
          ((changes.map Prod.fst).zip (deliveries.map fun d => cellsOf d.modChunks))) := by
  have hsizes : ∀ l ∈ List.zipWith (fun base (x : RowSet × List Cell) =>
      overwriteCells x.1 base x.2) t.grid
      ((changes.map Prod.fst).zip (deliveries.map fun d => cellsOf d.modChunks)),
      l.length = t.rows := by
    intro l hmem
    obtain ⟨base, hbase, x, _, rfl⟩ := mem_zipWith hmem
    rw [length_overwriteCells, Table.length_of_mem_grid hbase]
  obtain ⟨u, hu, hrest⟩ := Table.ofColumns_eq_ok (h.types.trans t.types_eq) h.cells hsizes
  rw [h.same]
  refine revise_eq_ok ⟨u, by rw [hu]; rfl, hrest⟩ rfl fun hempty => ⟨rfl, ?_⟩
  symm
  apply zipWith_eq_left
  · rw [List.length_zip, List.length_map, List.length_map, Table.length_grid, h.length_deliveries,
      h.length_changes, Table.length_columns, Nat.min_self]
  · intro base _ x hx
    exact overwriteCells_of_isEmpty (List.all_eq_true.1 hempty _ (List.of_mem_zip hx).1)

end

theorem modsComplete {p : PendingMessage} {t : Table} (h : p.WellFormed t.schema)
    (hc : p.isComplete = true) :
    ModsComplete p.deliveries p.metadata.modified t.columns := by
  intro i d modified base hd hm hbase
  have ht : t.schema.types[i]? = some base.type := by
    rw [← t.types_eq, List.getElem?_map, hbase]
    rfl
  refine ⟨fun c hc => h.types i d base.type hd ht c (List.mem_append_right _ hc), ?_⟩
  rw [h.length_mods (List.mem_of_getElem? hd)]
  exact (PendingMessage.isComplete_iff.1 hc).2 i d modified hd hm

end Decoder
end TickingTable
