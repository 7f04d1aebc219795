import TickingTable.Decoder.Pending
import TickingTable.Proofs.Columnwise
import TickingTable.Proofs.Splice

/-! What a message holds while its rows are arriving. -/

namespace TickingTable

namespace Delivery

variable {d : Delivery} {c : Column}

/-- The cells that have arrived for a column, first those of added rows. -/
def cells (d : Delivery) : List Cell := cellsOf d.addChunks ++ cellsOf d.modChunks

def addAdds (d : Delivery) (c : Column) : Delivery := { d with addChunks := d.addChunks ++ [c] }

def addMods (d : Delivery) (c : Column) : Delivery :=
  if c.size = 0 then d
  else { d with modChunks := d.modChunks ++ [c], modsReceived := d.modsReceived + c.size }

theorem toList_of_size_eq_zero (h : c.size = 0) : c.cells.toList = [] :=
  List.length_eq_zero_iff.1 (c.length_cells.trans h)

@[simp] theorem addChunks_addMods : (d.addMods c).addChunks = d.addChunks := by
  unfold addMods
  split <;> rfl

@[simp] theorem modsReceived_addMods : (d.addMods c).modsReceived = d.modsReceived + c.size := by
  unfold addMods
  split
  · next h => rw [h, Nat.add_zero]
  · rfl

theorem rows_addMods : ((d.addMods c).modChunks.map Column.size).sum =
    (d.modChunks.map Column.size).sum + c.size := by
  unfold addMods
  split <;> simp_all

theorem mem_modChunks_addMods {b : Column} (h : b ∈ (d.addMods c).modChunks) :
    b ∈ d.modChunks ∨ b = c := by
  unfold addMods at h
  split at h
  · exact Or.inl h
  · simpa using h

/-- Added rows go behind all cells as long as there are no modified rows. -/
theorem cells_addAdds (h : d.modChunks = []) : (d.addAdds c).cells = d.cells ++ c.cells.toList := by
  simp [addAdds, cells, h]

theorem cells_addMods : (d.addMods c).cells = d.cells ++ c.cells.toList := by
  unfold addMods
  split
  · next hc => rw [toList_of_size_eq_zero hc, List.append_nil]
  · simp [cells]

end Delivery

namespace PendingMessage

variable {schema : Schema} {m : UpdateMetadata} {p q : PendingMessage} {columns : List Column}
  {deliveries updated : List Delivery} {declared : List RowSet} {index : Nat}

/-- The cells that have arrived, column by column. -/
def cells (p : PendingMessage) : List (List Cell) := p.deliveries.map Delivery.cells

def adds (p : PendingMessage) : List (List Cell) := p.deliveries.map fun d => cellsOf d.addChunks

def mods (p : PendingMessage) : List (List Cell) := p.deliveries.map fun d => cellsOf d.modChunks

theorem map_cellsOf_addChunks (p : PendingMessage) :
    (p.deliveries.map Delivery.addChunks).map cellsOf = p.adds := by
  rw [List.map_map]
  rfl

/-- The counters of a message tell what has arrived for its columns, and nothing has arrived that
was not declared. -/
structure WellFormed (schema : Schema) (p : PendingMessage) : Prop where
  declared : p.metadata.modified.length = schema.size
  count : p.deliveries.length = schema.size
  types : ∀ (c : Nat) (d : Delivery) (type : ElementType), p.deliveries[c]? = some d →
    schema.types[c]? = some type → ∀ chunk ∈ d.addChunks ++ d.modChunks, chunk.type = type
  adds_le : p.addsReceived ≤ p.metadata.added.size
  adds_eq : ∀ d ∈ p.deliveries, (d.addChunks.map Column.size).sum = p.addsReceived
  adds_of_no_columns : schema.size = 0 → p.addsReceived = p.metadata.added.size
  sizes_eq : ∀ d ∈ p.deliveries, ∀ e ∈ p.deliveries,
    d.addChunks.map Column.size = e.addChunks.map Column.size
  mods_le : ∀ (c : Nat) (d : Delivery) (modified : RowSet), p.deliveries[c]? = some d →
    p.metadata.modified[c]? = some modified → d.modsReceived ≤ modified.size
  mods_eq : ∀ d ∈ p.deliveries, (d.modChunks.map Column.size).sum = d.modsReceived
  adds_first : p.addsReceived < p.metadata.added.size → ∀ d ∈ p.deliveries, d.modChunks = []

/-- The modified rows that columns bring are no more than were declared. -/
def ModsFit : List Delivery → List RowSet → List Column → Prop :=
  Columnwise fun d modified c => d.modsReceived + c.size ≤ modified.size

theorem start_eq_ok {n : Nat} : start m n = .ok p ↔ m.modified.length = n ∧
    p = ⟨m, if n = 0 then m.added.size else 0, List.replicate n {}⟩ := by
  unfold start
  split
  · next hne => simp [hne]
  · next heq => simp [not_not.1 heq, eq_comm]

theorem cells_start {n : Nat} (h : start m n = .ok p) : p.cells = List.replicate n [] := by
  obtain ⟨_, rfl⟩ := start_eq_ok.1 h
  simp [cells, Delivery.cells]

theorem deliverMods_cons (index : Nat) (d : Delivery) (deliveries : List Delivery)
    (modified : RowSet) (declared : List RowSet) (c : Column) (columns : List Column) :
    deliverMods index (d :: deliveries) (modified :: declared) (c :: columns) =
      if modified.size < d.modsReceived + c.size then
        .error (.tooManyRows index modified.size (d.modsReceived + c.size))
      else (deliverMods (index + 1) deliveries declared columns).map (d.addMods c :: ·) := by
  rw [deliverMods]
  split
  · rfl
  · unfold Delivery.addMods
    cases deliverMods (index + 1) deliveries declared columns <;> rfl

theorem deliverMods_eq_ok (hd : declared.length = deliveries.length)
    (hc : columns.length = deliveries.length) :
    deliverMods index deliveries declared columns = .ok updated ↔
      ModsFit deliveries declared columns ∧
        updated = List.zipWith Delivery.addMods deliveries columns := by
  induction deliveries generalizing index declared columns updated with
  | nil => simp [deliverMods, ModsFit, Columnwise, eq_comm, pure, Except.pure]
  | cons d deliveries ih =>
    obtain ⟨modified, declared, rfl⟩ := List.exists_cons_of_length_eq_add_one hd
    obtain ⟨c, columns, rfl⟩ := List.exists_cons_of_length_eq_add_one hc
    have ih' := fun updated => @ih columns updated declared (index + 1) (by simpa using hd)
      (by simpa using hc)
    rw [deliverMods_cons, ModsFit, columnwise_cons, ← ModsFit, List.zipWith_cons_cons]
    split
    · next hover => simp [Nat.not_le_of_lt hover]
    · next hfit =>
      cases hr : deliverMods (index + 1) deliveries declared columns with
      | error e =>
        simp only [Except.map, reduceCtorEq, false_iff, not_and]
        rintro ⟨_, hrest⟩
        exact absurd (hr.symm.trans ((ih' _).2 ⟨hrest, rfl⟩)) (by simp)
      | ok rest =>
        obtain ⟨hrest, rfl⟩ := (ih' _).1 hr
        simp only [Except.map, Except.ok.injEq, hrest, Nat.not_lt.1 hfit, true_and, eq_comm]

/-- What absorbing columns can do to a message. -/
inductive Absorbed (p : PendingMessage) (columns : List Column) : PendingMessage → Prop
  | nothing : 0 < p.addsOutstanding → (∀ c ∈ columns, c.size = 0) → Absorbed p columns p
  | adds (rows : Nat) : 0 < rows → (∀ c ∈ columns, c.size = rows) → rows ≤ p.addsOutstanding →
    Absorbed p columns { p with
      addsReceived := p.addsReceived + rows
      deliveries := List.zipWith Delivery.addAdds p.deliveries columns }
  | mods : p.addsOutstanding = 0 → ModsFit p.deliveries p.metadata.modified columns →
    Absorbed p columns { p with
      deliveries := List.zipWith Delivery.addMods p.deliveries columns }

theorem absorbAdds_cons (first : Column) (rest : List Column) :
    p.absorbAdds (first :: rest) =
      if ∀ c ∈ first :: rest, c.size = first.size then
        if p.addsOutstanding < first.size then
          .error (.tooManyRows 0 p.metadata.added.size (p.addsReceived + first.size))
        else if first.size = 0 then .ok p
        else .ok { p with
          addsReceived := p.addsReceived + first.size
          deliveries := List.zipWith Delivery.addAdds p.deliveries (first :: rest) }
      else .error .unevenAddColumns := by
  have hany : ((first :: rest).any fun c => decide (c.size ≠ first.size)) = true ↔
      ¬ ∀ c ∈ first :: rest, c.size = first.size := by
    rw [List.any_eq_true]
    simp only [decide_eq_true_eq, ne_eq, not_forall, exists_prop]
  by_cases heven : ∀ c ∈ first :: rest, c.size = first.size
  · rw [if_pos heven]
    exact if_neg fun h => hany.1 h heven
  · rw [if_neg heven]
    exact if_pos (hany.2 heven)

theorem absorbAdds_eq_ok (hc : columns ≠ []) (hout : 0 < p.addsOutstanding) :
    p.absorbAdds columns = .ok q ↔ Absorbed p columns q := by
  obtain ⟨first, rest, rfl⟩ := List.exists_cons_of_ne_nil hc
  rw [absorbAdds_cons]
  constructor
  · intro h
    split at h
    · next heven =>
      split at h
      · simp at h
      · next hfew =>
        split at h
        · next hzero =>
          obtain rfl := Except.ok.inj h
          exact .nothing hout fun c hc => (heven c hc).trans hzero
        · next hne =>
          obtain rfl := Except.ok.inj h
          exact .adds _ (Nat.pos_of_ne_zero hne) heven (Nat.not_lt.1 hfew)
    · simp at h
  · intro h
    cases h with
    | nothing _ hzero =>
      have hfirst := hzero first List.mem_cons_self
      rw [if_pos fun c hc => (hzero c hc).trans hfirst.symm, hfirst]
      simp
    | adds rows hpos heven hfew =>
      obtain rfl := heven first List.mem_cons_self
      rw [if_pos heven, if_neg (by omega), if_neg (by omega)]
    | mods hnone _ => omega

theorem WellFormed.size_pos (h : p.WellFormed schema) (hout : 0 < p.addsOutstanding) :
    0 < schema.size := by
  rcases Nat.eq_zero_or_pos schema.size with hzero | hpos
  · have := h.adds_of_no_columns hzero
    unfold addsOutstanding at hout
    omega
  · exact hpos

theorem absorb_eq_ok (h : p.WellFormed schema) (hc : columns.length = schema.size) :
    p.absorb columns = .ok q ↔ Absorbed p columns q := by
  have hd := h.declared.trans h.count.symm
  have hc' := hc.trans h.count.symm
  unfold absorb
  split
  · next hout =>
    have hpos := h.size_pos hout
    apply absorbAdds_eq_ok _ hout
    rintro rfl
    rw [← hc, List.length_nil] at hpos
    omega
  · next hout =>
    have hmods := fun updated =>
      @deliverMods_eq_ok columns p.deliveries updated p.metadata.modified 0 hd hc'
    constructor
    · intro h
      cases hr : deliverMods 0 p.deliveries p.metadata.modified columns with
      | error e => simp [hr, bind, Except.bind] at h
      | ok updated =>
        obtain ⟨hfit, rfl⟩ := (hmods _).1 hr
        rw [hr] at h
        obtain rfl := Except.ok.inj h
        exact .mods (by omega) hfit
    · intro h
      cases h with
      | nothing hout' _ => omega
      | adds rows _ _ _ => omega
      | mods _ hfit =>
        rw [(hmods _).2 ⟨hfit, rfl⟩]
        rfl

theorem isComplete_iff : p.isComplete = true ↔ p.addsOutstanding = 0 ∧
    ∀ (i : Nat) (d : Delivery) (modified : RowSet), p.deliveries[i]? = some d →
      p.metadata.modified[i]? = some modified → d.modsReceived = modified.size := by
  simp only [isComplete, Bool.and_eq_true, decide_eq_true_eq, List.all_eq_true]
  apply and_congr_right
  intro _
  constructor
  · intro h i d modified hd hi
    exact h (d, modified) (List.mem_of_getElem? (List.getElem?_zip_eq_some.2 ⟨hd, hi⟩))
  · intro h x hx
    obtain ⟨i, hi⟩ := List.mem_iff_getElem?.1 hx
    obtain ⟨hd, hm⟩ := List.getElem?_zip_eq_some.1 hi
    exact h i _ _ hd hm

namespace WellFormed

theorem start (h : start m schema.size = .ok p) : p.WellFormed schema := by
  obtain ⟨hlen, rfl⟩ := start_eq_ok.1 h
  have hmem : ∀ d ∈ List.replicate schema.size ({} : Delivery), schema.size ≠ 0 ∧ d = {} :=
    fun d hd => List.mem_replicate.1 hd
  constructor
  · exact hlen
  · exact List.length_replicate
  · intro c d type hd
    obtain ⟨_, rfl⟩ := hmem d (List.mem_of_getElem? hd)
    simp
  · dsimp only
    split
    · exact Nat.le_refl _
    · exact Nat.zero_le _
  · intro d hd
    obtain ⟨hne, rfl⟩ := hmem d hd
    simp [hne]
  · intro hzero
    simp [hzero]
  · intro d hd e he
    rw [(hmem d hd).2, (hmem e he).2]
  · intro c d modified hd _
    obtain ⟨_, rfl⟩ := hmem d (List.mem_of_getElem? hd)
    exact Nat.zero_le _
  · intro d hd
    obtain ⟨_, rfl⟩ := hmem d hd
    rfl
  · intro _ d hd
    obtain ⟨_, rfl⟩ := hmem d hd
    rfl

theorem type_of_getElem? (ht : columns.map Column.type = schema.types) {i : Nat} {c : Column}
    {type : ElementType} (hc : columns[i]? = some c) (hi : schema.types[i]? = some type) :
    c.type = type := by
  rw [← ht, List.getElem?_map, hc] at hi
  exact Option.some.inj hi

theorem length_of_types (ht : columns.map Column.type = schema.types) :
    columns.length = schema.size := by
  rw [Schema.size, schema.length_eq, ← ht, List.length_map]

theorem addAdds {rows : Nat} (h : p.WellFormed schema)
    (ht : columns.map Column.type = schema.types) (hpos : 0 < rows)
    (heven : ∀ c ∈ columns, c.size = rows) (hfew : rows ≤ p.addsOutstanding) :
    WellFormed schema { p with
      addsReceived := p.addsReceived + rows
      deliveries := List.zipWith Delivery.addAdds p.deliveries columns } := by
  have hmissing : p.addsReceived + rows ≤ p.metadata.added.size := by
    unfold addsOutstanding at hfew
    omega
  have hnone := h.adds_first (by omega)
  constructor
  · exact h.declared
  · simp [h.count, length_of_types ht]
  · intro i d type hd hi chunk hchunk
    obtain ⟨e, c, he, hc, rfl⟩ := List.getElem?_zipWith_eq_some.1 hd
    simp only [Delivery.addAdds, List.append_assoc, List.mem_append, List.mem_singleton] at hchunk
    rcases hchunk with hchunk | rfl | hchunk
    · exact h.types i e type he hi chunk (List.mem_append_left _ hchunk)
    · exact type_of_getElem? ht hc hi
    · exact h.types i e type he hi chunk (List.mem_append_right _ hchunk)
  · exact hmissing
  · intro d hd
    obtain ⟨e, he, c, hc, rfl⟩ := mem_zipWith hd
    simp [Delivery.addAdds, h.adds_eq e he, heven c hc]
  · intro hzero
    have := h.adds_of_no_columns hzero
    omega
  · intro d hd e he
    obtain ⟨d, hd', b, hb, rfl⟩ := mem_zipWith hd
    obtain ⟨e, he', c, hc, rfl⟩ := mem_zipWith he
    simp [Delivery.addAdds, h.sizes_eq d hd' e he', heven b hb, heven c hc]
  · intro i d modified hd hi
    obtain ⟨e, c, he, hc, rfl⟩ := List.getElem?_zipWith_eq_some.1 hd
    exact h.mods_le i e modified he hi
  · intro d hd
    obtain ⟨e, he, c, hc, rfl⟩ := mem_zipWith hd
    exact h.mods_eq e he
  · intro _ d hd
    obtain ⟨e, he, c, hc, rfl⟩ := mem_zipWith hd
    exact hnone e he

theorem addMods (h : p.WellFormed schema) (ht : columns.map Column.type = schema.types)
    (hnone : p.addsOutstanding = 0) (hfit : ModsFit p.deliveries p.metadata.modified columns) :
    WellFormed schema { p with
      deliveries := List.zipWith Delivery.addMods p.deliveries columns } := by
  constructor
  · exact h.declared
  · simp [h.count, length_of_types ht]
  · intro i d type hd hi chunk hchunk
    obtain ⟨e, c, he, hc, rfl⟩ := List.getElem?_zipWith_eq_some.1 hd
    rw [Delivery.addChunks_addMods] at hchunk
    rcases List.mem_append.1 hchunk with hchunk | hchunk
    · exact h.types i e type he hi chunk (List.mem_append_left _ hchunk)
    · rcases Delivery.mem_modChunks_addMods hchunk with hchunk | rfl
      · exact h.types i e type he hi chunk (List.mem_append_right _ hchunk)
      · exact type_of_getElem? ht hc hi
  · exact h.adds_le
  · intro d hd
    obtain ⟨e, he, c, hc, rfl⟩ := mem_zipWith hd
    rw [Delivery.addChunks_addMods]
    exact h.adds_eq e he
  · exact h.adds_of_no_columns
  · intro d hd e he
    obtain ⟨d, hd', b, hb, rfl⟩ := mem_zipWith hd
    obtain ⟨e, he', c, hc, rfl⟩ := mem_zipWith he
    rw [Delivery.addChunks_addMods, Delivery.addChunks_addMods]
    exact h.sizes_eq d hd' e he'
  · intro i d modified hd hi
    obtain ⟨e, c, he, hc, rfl⟩ := List.getElem?_zipWith_eq_some.1 hd
    rw [Delivery.modsReceived_addMods]
    exact hfit i e modified c he hi hc
  · intro d hd
    obtain ⟨e, he, c, hc, rfl⟩ := mem_zipWith hd
    rw [Delivery.rows_addMods, Delivery.modsReceived_addMods, h.mods_eq e he]
  · intro hmissing
    unfold addsOutstanding at hnone
    dsimp only at hmissing
    omega

theorem absorb (h : p.WellFormed schema) (ht : columns.map Column.type = schema.types)
    (ha : p.absorb columns = .ok q) : q.WellFormed schema := by
  cases (absorb_eq_ok h (length_of_types ht)).1 ha with
  | nothing _ _ => exact h
  | adds rows hpos heven hfew => exact h.addAdds ht hpos heven hfew
  | mods hnone hfit => exact h.addMods ht hnone hfit

theorem metadata_absorb (h : p.WellFormed schema) (hc : columns.length = schema.size)
    (ha : p.absorb columns = .ok q) : q.metadata = p.metadata := by
  cases (absorb_eq_ok h hc).1 ha <;> rfl

/-- The rows of a frame go behind those that arrived before. -/
theorem cells_absorb (h : p.WellFormed schema) (hc : columns.length = schema.size)
    (ha : p.absorb columns = .ok q) :
    q.cells = List.zipWith (· ++ ·) p.cells (columns.map fun c => c.cells.toList) := by
  have hlen := hc.trans h.count.symm
  cases (absorb_eq_ok h hc).1 ha with
  | nothing _ hzero =>
    symm
    apply zipWith_eq_left (by simp [cells, hlen])
    intro l _ m hm
    obtain ⟨c, hc, rfl⟩ := List.mem_map.1 hm
    rw [Delivery.toList_of_size_eq_zero (hzero c hc), List.append_nil]
  | adds rows hpos _ hfew =>
    have hnone := h.adds_first (by unfold addsOutstanding at hfew; omega)
    apply List.ext_getElem
    · simp [cells]
    · intro i hi hi'
      simp only [cells, List.getElem_zipWith, List.getElem_map]
      exact Delivery.cells_addAdds (hnone _ (List.getElem_mem _))
  | mods _ _ =>
    apply List.ext_getElem
    · simp [cells]
    · intro i hi hi'
      simp only [cells, List.getElem_zipWith, List.getElem_map]
      exact Delivery.cells_addMods

theorem length_adds (h : p.WellFormed schema) {d : Delivery} (hd : d ∈ p.deliveries) :
    (cellsOf d.addChunks).length = p.addsReceived := by
  rw [length_cellsOf, h.adds_eq d hd]

theorem length_mods (h : p.WellFormed schema) {d : Delivery} (hd : d ∈ p.deliveries) :
    (cellsOf d.modChunks).length = d.modsReceived := by
  rw [length_cellsOf, h.mods_eq d hd]

theorem length_cells_of_mem (h : p.WellFormed schema) {d : Delivery} (hd : d ∈ p.deliveries) :
    d.cells.length = p.addsReceived + d.modsReceived := by
  rw [Delivery.cells, List.length_append, h.length_adds hd, h.length_mods hd]

/-- A message is complete just if no column waits for cells. -/
theorem isComplete_iff_cells (h : p.WellFormed schema) :
    p.isComplete = true ↔ ∀ (i : Nat) (l : List Cell) (modified : RowSet), p.cells[i]? = some l →
      p.metadata.modified[i]? = some modified →
      p.metadata.added.size + modified.size ≤ l.length := by
  have hadds := h.adds_le
  rw [isComplete_iff]
  unfold addsOutstanding
  constructor
  · rintro ⟨hnone, hmods⟩ i l modified hl hi
    rw [cells, List.getElem?_map] at hl
    obtain ⟨d, hd, rfl⟩ := Option.map_eq_some_iff.1 hl
    have hlen := h.length_cells_of_mem (List.mem_of_getElem? hd)
    have := hmods i d modified hd hi
    omega
  · intro hfull
    have hcount : ∀ (i : Nat) (d : Delivery) (modified : RowSet), p.deliveries[i]? = some d →
        p.metadata.modified[i]? = some modified →
        p.addsReceived = p.metadata.added.size ∧ d.modsReceived = modified.size := by
      intro i d modified hd hi
      have hlen := h.length_cells_of_mem (List.mem_of_getElem? hd)
      have hle := h.mods_le i d modified hd hi
      have hge := hfull i d.cells modified (by rw [cells, List.getElem?_map, hd]; rfl) hi
      omega
    refine ⟨?_, fun i d modified hd hi => (hcount i d modified hd hi).2⟩
    -- Without columns no row is missing, and otherwise the first column tells the added rows.
    rcases Nat.eq_zero_or_pos schema.size with hzero | hpos
    · have := h.adds_of_no_columns hzero
      omega
    · have hd := List.getElem?_eq_getElem (h.count ▸ hpos)
      have hm := List.getElem?_eq_getElem (h.declared ▸ hpos)
      have := (hcount 0 _ _ hd hm).1
      omega

/-- Once all added rows are there they are the first cells of each column. -/
theorem adds_eq_take (h : p.WellFormed schema) (hnone : p.addsOutstanding = 0) :
    p.adds = p.cells.map (List.take p.metadata.added.size) := by
  rw [adds, cells, List.map_map]
  apply List.map_congr_left
  intro d hd
  have hadds := h.adds_le
  have hlen := h.length_adds hd
  unfold addsOutstanding at hnone
  rw [Function.comp_apply, Delivery.cells, List.take_left' (by omega)]

theorem mods_eq_drop (h : p.WellFormed schema) (hnone : p.addsOutstanding = 0) :
    p.mods = p.cells.map (List.drop p.metadata.added.size) := by
  rw [mods, cells, List.map_map]
  apply List.map_congr_left
  intro d hd
  have hadds := h.adds_le
  have hlen := h.length_adds hd
  unfold addsOutstanding at hnone
  rw [Function.comp_apply, Delivery.cells, List.drop_left' (by omega)]

end WellFormed
end PendingMessage
end TickingTable
