import TickingTable.Proofs.Decoder.Modify
import TickingTable.Proofs.RowSet.Shift

/-! What a complete message does to a decoder, or why it is refused. -/

namespace TickingTable

/-- Why a message does not fit the keys of a table, unless it does. -/
def UpdateMetadata.refusal? (m : UpdateMetadata) (keys : RowSet) : Option ProtocolError :=
  if ∀ k ∈ m.removed.toList, k ∈ keys then
    match (keys.difference m.removed).shift? m.shifts with
    | none => some .invalidShifts
    | some shifted =>
      if ∀ k ∈ m.added.toList, ¬ k ∈ shifted then
        (firstUnknown? (shifted.union m.added) 0 m.modified).map .modifiedRowNotFound
      else some .addedRowExists
  else some .removedRowNotFound

theorem UpdateMetadata.refusal?_eq_none {m : UpdateMetadata} {keys : RowSet} :
    m.refusal? keys = none ↔ (∀ k, k ∈ m.removed → k ∈ keys) ∧
      ∃ shifted, (keys.difference m.removed).shift? m.shifts = some shifted ∧
        (∀ k, k ∈ m.added → ¬ k ∈ shifted) ∧
        ∀ modified ∈ m.modified, ∀ k, k ∈ modified → k ∈ shifted.union m.added := by
  unfold refusal?
  split
  · next hsub =>
    simp only [RowSet.mem_toList] at hsub
    cases hshift : (keys.difference m.removed).shift? m.shifts with
    | none => simp
    | some shifted =>
      dsimp only
      split
      · next hnew =>
        simp only [RowSet.mem_toList] at hnew
        rw [Option.map_eq_none_iff, firstUnknown?_eq_none]
        constructor
        · intro hk
          exact ⟨hsub, shifted, rfl, hnew, hk⟩
        · rintro ⟨_, _, hs, _, hk⟩
          cases hs
          exact hk
      · next hold =>
        simp only [RowSet.mem_toList] at hold
        simp [hold]
  · next hnot =>
    simp only [RowSet.mem_toList] at hnot
    simp [hnot]

namespace Decoder

variable {d next : Decoder} {p : PendingMessage} {u : Update}

/-- The last stage of a message, once its rows are removed and added. -/
def finish (d : Decoder) (p : PendingMessage) (keys removed : RowSet) (removal : Revision)
    (added : RowSet) (addition : Revision) : Except ProtocolError (Decoder × Update) := do
  let afterAdds := addition.table (removal.table d.current)
  let changes ← modifyColumns keys 0 p.metadata.modified p.deliveries afterAdds.columns
  let modification ← revise (changes.all fun change => change.2.isNone)
    ((Table.ofColumns d.schema (changedColumns afterAdds.columns changes) afterAdds.rows).mapError
      .table)
  let update : Update :=
    { kind := d.kind, firstSeq := p.metadata.firstSeq, lastSeq := p.metadata.lastSeq
      prev := d.current, removed, removal, added, addition
      modified := changes.map Prod.fst, modification }
  return ({ d with kind := .delta, keys, current := update.current, pending := none }, update)

theorem apply_eq (d : Decoder) (p : PendingMessage) : d.apply p = (do
    let m := p.metadata
    let some removed := d.keys.positionsOf? m.removed | throw .removedRowNotFound
    let removal ← revise removed.isEmpty (d.current.removeRows removed)
    let some shifted := (d.keys.difference m.removed).shift? m.shifts | throw .invalidShifts
    if shifted.intersects m.added then throw .addedRowExists
    let keys := shifted.union m.added
    let some added := keys.positionsOf? m.added | throw .addedRowExists
    let addition ← revise added.isEmpty
      ((removal.table d.current).insertRows added (p.deliveries.map Delivery.addChunks))
    d.finish p keys removed removal added addition) := by
  have hbind : ∀ (b : Bool) (x : Except ProtocolError Table) {α : Type}
      (f : Revision → Except ProtocolError α), revise b x >>= f =
        if b then (pure .same >>= f) else ((.changed <$> x) >>= f) := by
    intro b x α f
    cases b <;> rfl
  simp only [finish, hbind]
  rfl

/-- Each row of the current table has a key, and no key is the reserved one. -/
structure Aligned (d : Decoder) : Prop where
  schema : d.current.schema = d.schema
  rows : d.current.rows = d.keys.size
  below : ∀ k, k ∈ d.keys → k < reservedKey

theorem Aligned.lt_of_mem_difference (ha : d.Aligned) (r : RowSet) (k : Nat)
    (hk : k ∈ d.keys.difference r) : k < reservedKey :=
  ha.below k (RowSet.mem_difference.1 hk).1

/-- What applying a message gives, told by the cells that were delivered. -/
structure Applied (d : Decoder) (m : UpdateMetadata) (adds mods : List (List Cell))
    (next : Decoder) (u : Update) : Prop where
  keys : ∃ shifted, (d.keys.difference m.removed).shift? m.shifts = some shifted ∧
    (∀ k, k ∈ m.added → ¬ k ∈ shifted) ∧ next.keys = shifted.union m.added
  rest : next = { d with kind := .delta, keys := next.keys, current := u.current, pending := none }
  header : u.kind = d.kind ∧ u.firstSeq = m.firstSeq ∧ u.lastSeq = m.lastSeq ∧ u.prev = d.current
  removed : d.keys.positionsOf? m.removed = some u.removed
  added : next.keys.positionsOf? m.added = some u.added
  modified : u.modified.map some = m.modified.map next.keys.positionsOf?
  removal : u.removal.Gives d.current u.removed.isEmpty
    (Table.keptRows d.current.rows u.removed).length
    (d.current.grid.map (pickCells (Table.keptRows d.current.rows u.removed)))
  addition : u.addition.Gives u.afterRemoves u.added.isEmpty (u.afterRemoves.rows + u.added.size)
    (List.zipWith (spliceCells u.added) u.afterRemoves.grid adds)
  modification : u.modification.Gives u.afterAdds (u.modified.all RowSet.isEmpty) u.afterAdds.rows
    (List.zipWith (fun base (x : RowSet × List Cell) => overwriteCells x.1 base x.2)
      u.afterAdds.grid (u.modified.zip mods))

/-- A message is applied in one way only. -/
theorem Applied.unique {m : UpdateMetadata} {adds mods : List (List Cell)} {next' : Decoder}
    {u' : Update} (h : Applied d m adds mods next u) (h' : Applied d m adds mods next' u') :
    next = next' ∧ u = u' := by
  obtain ⟨shifted, hshift, _, hkeys⟩ := h.keys
  obtain ⟨shifted', hshift', _, hkeys'⟩ := h'.keys
  have hsame : next.keys = next'.keys := by
    rw [hkeys, hkeys', Option.some.inj (hshift.symm.trans hshift')]
  have hremoved := Option.some.inj (h.removed.symm.trans h'.removed)
  have hadded : u.added = u'.added := by
    have ha := h.added
    rw [hsame] at ha
    exact Option.some.inj (ha.symm.trans h'.added)
  have hmodified : u.modified = u'.modified := by
    have hm := h.modified
    rw [hsame] at hm
    exact List.map_injective_iff.2 (Option.some_injective _) (hm.trans h'.modified.symm)
  obtain ⟨hkind, hfirst, hlast, hprev⟩ := h.header
  obtain ⟨hkind', hfirst', hlast', hprev'⟩ := h'.header
  have hremoval : u.removal = u'.removal := h.removal.unique (hremoved ▸ h'.removal)
  have hafterRemoves : u.afterRemoves = u'.afterRemoves := by
    rw [Update.afterRemoves, Update.afterRemoves, hremoval, hprev, hprev']
  have haddition : u.addition = u'.addition :=
    h.addition.unique (hadded ▸ hafterRemoves ▸ h'.addition)
  have hafterAdds : u.afterAdds = u'.afterAdds := by
    rw [Update.afterAdds, Update.afterAdds, haddition, hafterRemoves]
  have hmodification : u.modification = u'.modification :=
    h.modification.unique (hmodified ▸ hafterAdds ▸ h'.modification)
  have hu : u = u' := by
    cases u
    cases u'
    simp_all
  rw [h.rest, h'.rest, hsame, hu]
  exact ⟨rfl, rfl⟩

/-- The rows that are kept are those whose keys are kept. -/
theorem keptRows_eq_map_rank {keys subset removed : RowSet}
    (h : keys.positionsOf? subset = some removed) :
    Table.keptRows keys.size removed = (keys.difference subset).toList.map keys.rank := by
  rw [Table.keptRows_eq, ← RowSet.map_rank_toList, List.filter_map, RowSet.toList_difference]
  congr 1
  apply List.filter_congr
  intro k hk
  simp [RowSet.rank_mem_positionsOf? h (RowSet.mem_toList.1 hk)]

namespace Applied

variable {m : UpdateMetadata} {adds mods : List (List Cell)}

theorem afterRemoves_eq (h : Applied d m adds mods next u) :
    u.afterRemoves = u.removal.table d.current := by
  rw [Update.afterRemoves, h.header.2.2.2]

theorem current_eq (h : Applied d m adds mods next u) : next.current = u.current := by
  rw [h.rest]

theorem pending_eq (h : Applied d m adds mods next u) : next.pending = none := by
  rw [h.rest]

theorem schema_eq (h : Applied d m adds mods next u) : next.schema = d.schema := by
  rw [h.rest]

theorem schema_current (h : Applied d m adds mods next u) :
    u.current.schema = d.current.schema := by
  rw [Update.current, h.modification.schema, Update.afterAdds, h.addition.schema,
    h.afterRemoves_eq, h.removal.schema]

theorem rows_afterRemoves (h : Applied d m adds mods next u) (ha : d.Aligned) :
    u.afterRemoves.rows = (d.keys.difference m.removed).size := by
  rw [h.afterRemoves_eq, h.removal.rows, ha.rows, keptRows_eq_map_rank h.removed, List.length_map,
    RowSet.length_toList]

theorem rows_current (h : Applied d m adds mods next u) (ha : d.Aligned) :
    u.current.rows = (d.keys.difference m.removed).size + m.added.size := by
  rw [Update.current, h.modification.rows, Update.afterAdds, h.addition.rows,
    h.rows_afterRemoves ha, RowSet.size_positionsOf? h.added]

theorem size_keys (h : Applied d m adds mods next u) (ha : d.Aligned) :
    next.keys.size = (d.keys.difference m.removed).size + m.added.size := by
  obtain ⟨shifted, hshift, hnew, hkeys⟩ := h.keys
  rw [hkeys, RowSet.size_union fun k hk hk' => hnew k hk' hk,
    RowSet.size_shift? (ha.lt_of_mem_difference _) hshift]

end Applied

variable {removed added shifted : RowSet}

theorem insertable {t : Table} (h : p.WellFormed t.schema) (hnone : p.addsOutstanding = 0)
    (hsize : added.size = p.metadata.added.size) (hlt : ∀ n, n ∈ added → n < t.rows + added.size) :
    t.Insertable added (p.deliveries.map Delivery.addChunks) := by
  have hlen := t.length_columns.trans h.count.symm
  constructor
  · rw [List.length_map, hlen]
  · intro x hx c hc
    obtain ⟨i, hi⟩ := List.mem_iff_getElem?.1 hx
    obtain ⟨hbase, hchunks⟩ := List.getElem?_zip_eq_some.1 hi
    rw [List.getElem?_map] at hchunks
    obtain ⟨d, hd, he⟩ := Option.map_eq_some_iff.1 hchunks
    refine h.types i d x.1.type hd ?_ c (List.mem_append_left _ (he ▸ hc))
    rw [← t.types_eq, List.getElem?_map, hbase]
    rfl
  · intro l hl
    obtain ⟨d, hd, rfl⟩ := List.mem_map.1 hl
    obtain ⟨e, rest, he⟩ := List.exists_cons_of_ne_nil (List.ne_nil_of_mem hd)
    rw [he]
    exact h.sizes_eq e (he ▸ List.mem_cons_self) d hd
  · intro l hl
    obtain ⟨d, hd, rfl⟩ := List.mem_map.1 hl
    have hadds := h.adds_le
    unfold PendingMessage.addsOutstanding at hnone
    rw [h.length_adds hd]
    omega
  · exact hlt

section Finish

variable {keys : RowSet} {removal addition : Revision} (h : p.WellFormed d.schema)
  (hc : p.isComplete = true)
  (hs : (addition.table (removal.table d.current)).schema = d.schema)

include h hc hs

theorem finish_unknown {c : Nat} (hunknown : firstUnknown? keys 0 p.metadata.modified = some c) :
    d.finish p keys removed removal added addition = .error (.modifiedRowNotFound c) := by
  have hwf : p.WellFormed (addition.table (removal.table d.current)).schema := hs ▸ h
  rw [finish]
  dsimp only
  rw [modifyColumns_unknown _ _ (modsComplete hwf hc) hunknown]
  · rfl
  · rw [h.count, h.declared]
  · rw [Table.length_columns, hwf.declared]

theorem finish_eq_ok
    (hk : ∀ modified ∈ p.metadata.modified, ∀ k, k ∈ modified → k ∈ keys) :
    ∃ modified modification,
      modified.map some = p.metadata.modified.map keys.positionsOf? ∧
      Revision.Gives modification (addition.table (removal.table d.current))
        (modified.all RowSet.isEmpty) (addition.table (removal.table d.current)).rows
        (List.zipWith (fun base (x : RowSet × List Cell) => overwriteCells x.1 base x.2)
          (addition.table (removal.table d.current)).grid (modified.zip p.mods)) ∧
      let u : Update :=
        { kind := d.kind, firstSeq := p.metadata.firstSeq, lastSeq := p.metadata.lastSeq
          prev := d.current, removed, removal, added, addition, modified, modification }
      d.finish p keys removed removal added addition =
        .ok ({ d with kind := .delta, keys, current := u.current, pending := none }, u) := by
  have hwf : p.WellFormed (addition.table (removal.table d.current)).schema := hs ▸ h
  have hd := h.count.trans h.declared.symm
  have hcols := (Table.length_columns _).trans hwf.declared.symm
  obtain ⟨changes, hchanges, hover⟩ :=
    @modifyColumns_eq_ok _ 0 _ _ _ hd hcols (modsComplete hwf hc) hk
  obtain ⟨modification, hmod, hgives⟩ := modification_eq_ok hover
  rw [hs] at hmod
  refine ⟨_, modification, hover.positions, hgives, ?_⟩
  rw [finish]
  dsimp only
  rw [hchanges]
  simp only [bind, Except.bind, hmod]
  rfl

end Finish

section Stages

variable (ha : d.Aligned) (h : p.WellFormed d.schema) (hc : p.isComplete = true)

include ha h hc

/-- The table without the removed rows can take the added ones. -/
theorem insertable_afterRemoves {removal : Revision}
    (hremoved : d.keys.positionsOf? p.metadata.removed = some removed)
    (hremoval : revise removed.isEmpty (d.current.removeRows removed) = .ok removal)
    (hshift : (d.keys.difference p.metadata.removed).shift? p.metadata.shifts = some shifted)
    (hnew : ∀ k, k ∈ p.metadata.added → ¬ k ∈ shifted)
    (hadded : (shifted.union p.metadata.added).positionsOf? p.metadata.added = some added) :
    (removal.table d.current).Insertable added (p.deliveries.map Delivery.addChunks) := by
  have hgives := Table.gives_of_removal hremoval
  have hrows : (removal.table d.current).rows = shifted.size := by
    rw [hgives.rows, ha.rows, keptRows_eq_map_rank hremoved, List.length_map,
      RowSet.length_toList, RowSet.size_shift? (ha.lt_of_mem_difference _) hshift]
  have hsize := RowSet.size_positionsOf? hadded
  have hunion : (shifted.union p.metadata.added).size = shifted.size + p.metadata.added.size :=
    RowSet.size_union fun k hk hk' => hnew k hk' hk
  apply insertable _ (PendingMessage.isComplete_iff.1 hc).1 hsize
  · intro n hn
    have := RowSet.lt_size_of_mem_positionsOf? hadded hn
    omega
  · rwa [hgives.schema, ha.schema]

/-- Up to the modified cells only the keys can be refused. -/
theorem apply_stages (hremoved : d.keys.positionsOf? p.metadata.removed = some removed)
    (hshift : (d.keys.difference p.metadata.removed).shift? p.metadata.shifts = some shifted)
    (hnew : ∀ k, k ∈ p.metadata.added → ¬ k ∈ shifted) :
    ∃ added removal addition,
      (shifted.union p.metadata.added).positionsOf? p.metadata.added = some added ∧
      Revision.Gives removal d.current removed.isEmpty
        (Table.keptRows d.current.rows removed).length
        (d.current.grid.map (pickCells (Table.keptRows d.current.rows removed))) ∧
      Revision.Gives addition (removal.table d.current) added.isEmpty
        ((removal.table d.current).rows + added.size)
        (List.zipWith (spliceCells added) (removal.table d.current).grid p.adds) ∧
      d.apply p =
        d.finish p (shifted.union p.metadata.added) removed removal added addition := by
  obtain ⟨added, hadded⟩ := (shifted.union p.metadata.added).positionsOf?_of_subset
    fun k hk => RowSet.mem_union.2 (Or.inr hk)
  obtain ⟨removal, hremoval, hgives⟩ := d.current.removal_eq_ok removed
  obtain ⟨addition, haddition, hgives'⟩ := Table.addition_eq_ok
    (insertable_afterRemoves ha h hc hremoved hremoval hshift hnew hadded)
  rw [PendingMessage.map_cellsOf_addChunks] at hgives'
  refine ⟨added, removal, addition, hadded, hgives, hgives', ?_⟩
  have hdisjoint : shifted.intersects p.metadata.added = false := by
    rw [Bool.eq_false_iff]
    intro hi
    obtain ⟨k, hk, hk'⟩ := RowSet.intersects_iff.1 hi
    exact hnew k hk' hk
  rw [apply_eq]
  simp only [hremoved, hremoval, hshift, hdisjoint, hadded]
  simp only [bind, Except.bind, haddition]
  rfl

theorem apply_refused {e : ProtocolError} (he : p.metadata.refusal? d.keys = some e) :
    d.apply p = .error e := by
  unfold UpdateMetadata.refusal? at he
  split at he
  · next hsub =>
    obtain ⟨removed, hremoved⟩ :=
      RowSet.positionsOf?_of_subset fun k hk => hsub k (RowSet.mem_toList.2 hk)
    split at he
    · next hshift =>
      obtain rfl := Option.some.inj he
      obtain ⟨removal, hrem, _⟩ := d.current.removal_eq_ok removed
      rw [apply_eq]
      simp only [hremoved, hrem, hshift]
      rfl
    · next shifted hshift =>
      split at he
      · next hnew =>
        obtain ⟨c, hunknown, rfl⟩ := Option.map_eq_some_iff.1 he
        obtain ⟨added, removal, addition, _, hgives, hgives', happly⟩ :=
          apply_stages ha h hc hremoved hshift fun k hk => hnew k (RowSet.mem_toList.2 hk)
        rw [happly]
        exact finish_unknown h hc (hgives'.schema.trans (hgives.schema.trans ha.schema)) hunknown
      · next hold =>
        obtain rfl := Option.some.inj he
        have hmeet : shifted.intersects p.metadata.added = true := by
          rw [RowSet.intersects_iff]
          simp only [RowSet.mem_toList, not_forall, not_not] at hold
          obtain ⟨k, hk, hk'⟩ := hold
          exact ⟨k, hk', hk⟩
        obtain ⟨removal, hrem, _⟩ := d.current.removal_eq_ok removed
        rw [apply_eq]
        simp only [hremoved, hrem, hshift, hmeet]
        rfl
  · next hnot =>
    obtain rfl := Option.some.inj he
    have hnone : d.keys.positionsOf? p.metadata.removed = none := by
      rw [RowSet.positionsOf?_eq_none]
      simpa using hnot
    rw [apply_eq]
    simp only [hnone]
    rfl

theorem apply_eq_ok (hfits : p.metadata.refusal? d.keys = none) :
    ∃ next u, d.apply p = .ok (next, u) ∧ Applied d p.metadata p.adds p.mods next u := by
  obtain ⟨hsub, shifted, hshift, hnew, hknown⟩ := UpdateMetadata.refusal?_eq_none.1 hfits
  obtain ⟨removed, hremoved⟩ := RowSet.positionsOf?_of_subset hsub
  obtain ⟨added, removal, addition, hadded, hgives, hgives', happly⟩ :=
    apply_stages ha h hc hremoved hshift hnew
  obtain ⟨modified, modification, hmodified, hgives'', hfinish⟩ :=
    @finish_eq_ok d p removed added _ removal addition h hc
      (hgives'.schema.trans (hgives.schema.trans ha.schema)) hknown
  rw [happly, hfinish]
  exact ⟨_, _, rfl, ⟨shifted, hshift, hnew, rfl⟩, rfl, ⟨rfl, rfl, rfl, rfl⟩, hremoved, hadded,
    hmodified, hgives, hgives', hgives''⟩

/-- Whether a message is applied depends on its keys only. -/
theorem applied_of_apply (happly : d.apply p = .ok (next, u)) :
    p.metadata.refusal? d.keys = none ∧ Applied d p.metadata p.adds p.mods next u := by
  cases hr : p.metadata.refusal? d.keys with
  | some e =>
    have := apply_refused ha h hc hr
    rw [happly] at this
    cases this
  | none =>
    obtain ⟨next', u', happly', happlied⟩ := apply_eq_ok ha h hc hr
    rw [happly] at happly'
    cases happly'
    exact ⟨rfl, happlied⟩

end Stages
end Decoder
end TickingTable
