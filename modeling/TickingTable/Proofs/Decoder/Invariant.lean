import Mathlib
import TickingTable.Proofs.Decoder.Run
import TickingTable.Proofs.Wire.Metadata

/-! What holds of a decoder after any frames, and which failures that rules out. -/

namespace TickingTable

theorem Frame.keysBelow_of_update? {f : Frame} {m : UpdateMetadata} (h : f.update? = some m) :
    m.KeysBelow := by
  obtain ⟨input, _, hdecode⟩ := Option.bind_eq_some_iff.1 h
  cases hr : UpdateMetadata.decode input with
  | error e => simp [hr, Except.toOption] at hdecode
  | ok m' =>
    rw [hr] at hdecode
    cases hdecode
    exact UpdateMetadata.keysBelow_of_decode hr

namespace Decoder

variable {d next : Decoder} {f : Frame} {fs : List Frame} {p q : PendingMessage} {u : Update}
  {m : UpdateMetadata} {adds mods : List (List Cell)}

/-- A message starts with the metadata of a frame, or it is already open. -/
theorem messageOf_eq_ok : d.messageOf f.metadata = .ok p ↔
    (d.pending = none ∧ ∃ m, f.update? = some m ∧ PendingMessage.start m d.schema.size = .ok p) ∨
      (d.pending = some p ∧ f.metadata = none) := by
  unfold messageOf Frame.update?
  cases hm : f.metadata with
  | none =>
    cases hp : d.pending with
    | none => simp
    | some q => simp
  | some input =>
    cases hp : d.pending with
    | some q => simp
    | none =>
      dsimp only
      rw [bind_eq_ok]
      cases hr : UpdateMetadata.decode input with
      | error e => simp [Except.mapError, Except.toOption, hr]
      | ok m => simp [Except.mapError, Except.toOption, hr]

/-- What an open message does to the keys leaves out the reserved key. -/
structure Spares (d : Decoder) (m : UpdateMetadata) : Prop where
  keys : m.KeysBelow
  shifts : (d.keys.difference m.removed).ShiftsBelow m.shifts

/-- Keys and rows go together, and an open message waits for rows. -/
structure Invariant (d : Decoder) : Prop where
  aligned : d.Aligned
  pending : ∀ p, d.pending = some p →
    p.isComplete = false ∧ p.WellFormed d.schema ∧ d.Spares p.metadata

theorem Invariant.start (schema : Schema) : (start schema).Invariant :=
  ⟨⟨rfl, rfl, fun k hk => absurd hk RowSet.not_mem_empty⟩, by simp [Decoder.start]⟩

/-- The rows of an open message are in order. This takes nothing for granted about its shifts. -/
def Orderly (d : Decoder) : Prop := ∀ p, d.pending = some p → p.WellFormed d.schema

namespace Orderly

theorem of_pending_eq_none (h : d.pending = none) : d.Orderly := by simp [Orderly, h]

theorem wellFormed_messageOf (h : d.Orderly) (hp : d.messageOf f.metadata = .ok p) :
    p.WellFormed d.schema := by
  rcases messageOf_eq_ok.1 hp with ⟨_, m, _, hstart⟩ | ⟨hopen, _⟩
  · exact .start hstart
  · exact h p hopen

theorem wellFormed_received (h : d.Orderly) (hc : f.Conforms d.schema)
    (hp : d.received f = .ok p) : p.WellFormed d.schema := by
  obtain ⟨q, hq, habsorb⟩ := bind_eq_ok.1 hp
  exact (h.wellFormed_messageOf hq).absorb hc.types_trimmed habsorb

/-- A frame that is received leaves a message with the metadata it had, or with those of the frame
when it starts the message. -/
theorem metadata_received (h : d.Orderly) (hc : f.Conforms d.schema) (hp : d.received f = .ok p) :
    (d.pending = none ∧ f.update? = some p.metadata) ∨
      ∃ q, d.pending = some q ∧ q.metadata = p.metadata := by
  obtain ⟨q, hq, habsorb⟩ := bind_eq_ok.1 hp
  rw [(h.wellFormed_messageOf hq).metadata_absorb hc.length_trimmed habsorb]
  rcases messageOf_eq_ok.1 hq with ⟨hidle, m, hm, hstart⟩ | ⟨hopen, _⟩
  · obtain ⟨_, rfl⟩ := PendingMessage.start_eq_ok.1 hstart
    exact .inl ⟨hidle, hm⟩
  · exact .inr ⟨q, hopen, rfl⟩

theorem step (h : d.Orderly) (f : Frame) : (d.step f).1.Orderly := by
  have htaken := taken_step d f
  generalize (d.step f).1 = next, (d.step f).2 = answer at htaken
  cases htaken with
  | ignored e _ => exact h
  | dropped e _ _ => exact of_pending_eq_none rfl
  | waiting p hc hp _ =>
    intro q hq
    cases hq
    exact h.wellFormed_received hc hp
  | refused p e _ _ _ _ => exact of_pending_eq_none rfl
  | completed p next u _ _ _ hu => exact of_pending_eq_none (pending_of_apply hu).1

end Orderly

namespace Invariant

theorem orderly (h : d.Invariant) : d.Orderly := fun p hp => (h.pending p hp).2.1

theorem spares_received (h : d.Invariant) (hb : ∀ m, f.update? = some m →
    (d.keys.difference m.removed).ShiftsBelow m.shifts) (hc : f.Conforms d.schema)
    (hp : d.received f = .ok p) : d.Spares p.metadata := by
  rcases h.orderly.metadata_received hc hp with ⟨_, hm⟩ | ⟨q, hopen, hq⟩
  · exact ⟨Frame.keysBelow_of_update? hm, hb _ hm⟩
  · exact hq ▸ (h.pending q hopen).2.2

end Invariant

/-- A message that is applied keeps keys and rows together. -/
theorem Applied.aligned_of_below (h : Applied d m adds mods next u) (ha : d.Aligned)
    (hbelow : ∀ k, k ∈ next.keys → k < reservedKey) : next.Aligned := by
  refine ⟨?_, ?_, hbelow⟩
  · rw [h.current_eq, h.schema_current, ha.schema, h.schema_eq]
  · rw [h.current_eq, h.rows_current ha, h.size_keys ha]

theorem Applied.aligned (h : Applied d m adds mods next u) (ha : d.Aligned) (hs : d.Spares m) :
    next.Aligned := by
  apply h.aligned_of_below ha
  obtain ⟨shifted, hshift, _, hkeys⟩ := h.keys
  intro k hk
  rw [hkeys, RowSet.mem_union] at hk
  rcases hk with hk | hk
  · exact RowSet.lt_reservedKey_of_shift? (ha.lt_of_mem_difference _) hs.shifts hshift hk
  · exact hs.keys m.added (Or.inr (Or.inl rfl)) k hk

theorem Invariant.step (h : d.Invariant) (hb : ∀ m, f.update? = some m →
    (d.keys.difference m.removed).ShiftsBelow m.shifts) : (d.step f).1.Invariant := by
  have htaken := taken_step d f
  generalize (d.step f).1 = next, (d.step f).2 = answer at htaken
  cases htaken with
  | ignored e _ => exact h
  | dropped e _ _ => exact ⟨⟨h.aligned.schema, h.aligned.rows, h.aligned.below⟩, by simp⟩
  | waiting p hc hp hwaits =>
    refine ⟨⟨h.aligned.schema, h.aligned.rows, h.aligned.below⟩, ?_⟩
    intro q hq
    cases hq
    have hspares := h.spares_received hb hc hp
    exact ⟨hwaits, h.orderly.wellFormed_received hc hp, hspares.keys, hspares.shifts⟩
  | refused p e _ _ _ _ => exact ⟨⟨h.aligned.schema, h.aligned.rows, h.aligned.below⟩, by simp⟩
  | completed p next u hc hp hcomplete hu =>
    have hwf := h.orderly.wellFormed_received hc hp
    have happlied := (applied_of_apply h.aligned hwf hcomplete hu).2
    refine ⟨happlied.aligned h.aligned (h.spares_received hb hc hp), ?_⟩
    simp [(pending_of_apply hu).1]

theorem Invariant.feed (h : d.Invariant) (hb : d.ShiftsBelow fs) : (d.feed fs).Invariant := by
  induction fs generalizing d with
  | nil => exact h
  | cons f fs ih => exact ih (h.step hb.1) hb.2

theorem schema_step (d : Decoder) (f : Frame) : (d.step f).1.schema = d.schema := by
  have htaken := taken_step d f
  generalize (d.step f).1 = next, (d.step f).2 = answer at htaken
  cases htaken with
  | completed p next u _ _ _ hu => exact (pending_of_apply hu).2
  | _ => rfl

theorem schema_feed (d : Decoder) (fs : List Frame) : (d.feed fs).schema = d.schema := by
  induction fs generalizing d with
  | nil => rfl
  | cons f fs ih => rw [feed_cons, ih, schema_step]

/-- While a complete message is applied, the added keys are found among all keys, and every row that
is taken or interleaved is there. -/
structure Covered (d : Decoder) (p : PendingMessage) : Prop where
  added : ∀ shifted,
    (d.keys.difference p.metadata.removed).shift? p.metadata.shifts = some shifted →
    (shifted.union p.metadata.added).positionsOf? p.metadata.added ≠ none
  taken : ∀ removed, d.keys.positionsOf? p.metadata.removed = some removed →
    ∀ c ∈ d.current.columns, ∀ row ∈ Table.keptRows d.current.rows removed, row < c.size
  inserted : ∀ removed removal shifted added,
    d.keys.positionsOf? p.metadata.removed = some removed →
    revise removed.isEmpty (d.current.removeRows removed) = .ok removal →
    (d.keys.difference p.metadata.removed).shift? p.metadata.shifts = some shifted →
    shifted.intersects p.metadata.added = false →
    (shifted.union p.metadata.added).positionsOf? p.metadata.added = some added →
    ∀ x ∈ (removal.table d.current).columns.zip (p.deliveries.map Delivery.addChunks),
      ∀ i ∈ insertIndices (removal.table d.current).rows added
        ((p.deliveries.map Delivery.addChunks).head?.getD []), (x.1.addressed? x.2 i).isSome
  overwritten : ∀ keys columns, Columnwise (fun delivery modified (base : Column) =>
    ∀ positions, RowSet.positionsOf? keys modified = some positions →
      ∀ i ∈ overwriteIndices base.size positions delivery.modChunks,
        (base.addressed? delivery.modChunks i).isSome)
    p.deliveries p.metadata.modified columns

theorem isSome_of_map_eq {α β : Type} {g : α → Option β} {l : List α} {bs : List β}
    (h : l.map g = bs.map some) : ∀ a ∈ l, (g a).isSome := by
  intro a ha
  obtain ⟨b, _, hb⟩ := List.mem_map.1 (h ▸ List.mem_map_of_mem ha : g a ∈ bs.map some)
  rw [← hb]
  rfl

theorem covered (ha : d.Aligned) (h : p.WellFormed d.schema) (hc : p.isComplete = true) :
    Covered d p := by
  constructor
  · intro shifted _ hnone
    exact RowSet.positionsOf?_eq_none.1 hnone fun k hk => RowSet.mem_union.2 (Or.inr hk)
  · intro removed _ c hmem row hrow
    rw [d.current.sizes_eq c hmem]
    exact Table.lt_of_mem_keptRows hrow
  · intro removed removal shifted added hremoved hremoval hshift hdisjoint hadded x hx
    have hnew : ∀ k, k ∈ p.metadata.added → ¬ k ∈ shifted := by
      intro k hk hk'
      rw [RowSet.intersects_iff.2 ⟨k, hk', hk⟩] at hdisjoint
      cases hdisjoint
    have hins := insertable_afterRemoves ha h hc hremoved hremoval hshift hnew hadded
    exact isSome_of_map_eq (hins.addressed hx)
  · intro keys columns c delivery modified base hd hm _ positions hpos
    have hfull := (PendingMessage.isComplete_iff.1 hc).2 c delivery modified hd hm
    have hlen := h.length_mods (List.mem_of_getElem? hd)
    apply isSome_of_map_eq (addressed?_overwriteIndices _)
    rw [hlen, hfull, RowSet.size_positionsOf? hpos]

theorem blame_refusal? {keys : RowSet} {e : ProtocolError} (h : m.refusal? keys = some e) :
    e.blame = .message := by
  unfold UpdateMetadata.refusal? at h
  split at h
  · split at h
    · cases h
      rfl
    · split at h
      · obtain ⟨c, _, rfl⟩ := Option.map_eq_some_iff.1 h
        rfl
      · cases h
        rfl
  · cases h
    rfl

/-- Whatever frame comes next, putting columns and tables together does not fail. -/
theorem Invariant.blame_step {e : ProtocolError} (h : d.Invariant)
    (he : (d.step f).2 = .error e) : e.blame ≠ .assembly := by
  have htaken := taken_step d f
  rw [he] at htaken
  generalize (d.step f).1 = next at htaken
  cases htaken with
  | ignored e hcheck => simp [checkFrame_error hcheck]
  | dropped e _ hreceived =>
    have hmessage : e.blame = .message := blames_received d f e hreceived
    simp [hmessage]
  | refused p e hc hp hcomplete happly =>
    have hwf := h.orderly.wellFormed_received hc hp
    cases hr : p.metadata.refusal? d.keys with
    | none =>
      obtain ⟨next, u, hok, _⟩ := apply_eq_ok h.aligned hwf hcomplete hr
      rw [happly] at hok
      cases hok
    | some e' =>
      rw [apply_refused h.aligned hwf hcomplete hr] at happly
      cases happly
      simp [blame_refusal? hr]

/-- After any frames whose shifts spare the reserved key, keys and rows correspond, an open message
holds what its counters say, and no later frame makes the decoder fail at its own work. -/
theorem feed_sound (schema : Schema) (fs : List Frame) (hb : (start schema).ShiftsBelow fs) :
    let d := (start schema).feed fs
    d.keys.size = d.current.rows ∧
    d.current.columns.map Column.type = schema.types ∧
    (∀ c ∈ d.current.columns, c.size = d.current.rows) ∧
    (∀ p, d.pending = some p → p.isComplete = false ∧ p.WellFormed schema) ∧
    ∀ f : Frame,
      (∀ e, (d.step f).2 = .error e → e.blame ≠ .assembly) ∧
      (∀ p, d.messageOf f.metadata = .ok p → p.WellFormed schema) ∧
      ∀ columns p, d.checkFrame f = .ok columns →
        (d.messageOf f.metadata >>= fun p => p.absorb columns) = .ok p →
        p.WellFormed schema ∧ (p.isComplete = true → Covered d p) := by
  intro d
  have h : d.Invariant := (Invariant.start schema).feed hb
  have hschema : d.schema = schema := schema_feed _ fs
  refine ⟨h.aligned.rows.symm, ?_, d.current.sizes_eq, ?_, fun f => ⟨?_, ?_, ?_⟩⟩
  · rw [d.current.types_eq, h.aligned.schema, hschema]
  · intro p hp
    obtain ⟨hwaits, hwf, _⟩ := h.pending p hp
    exact ⟨hwaits, hschema ▸ hwf⟩
  · intro e he
    exact h.blame_step he
  · intro p hp
    exact hschema ▸ h.orderly.wellFormed_messageOf hp
  · intro columns p hcheck hp
    obtain ⟨hc, rfl⟩ := checkFrame_eq_ok.1 hcheck
    have hwf := h.orderly.wellFormed_received hc hp
    exact ⟨hschema ▸ hwf, covered h.aligned hwf⟩

/-- A row is shifted away and another one is on its way in. -/
theorem feed_sound_makeRoom :
    (start oneColumn).ShiftsBelow [opening, filling, opening] ∧
      ((start oneColumn).feed [opening, filling, opening]).pending.isSome = true ∧
      ((start oneColumn).feed [opening, filling, opening]).keys.size =
        ((start oneColumn).feed [opening, filling, opening]).current.rows := by
  have hb : (start oneColumn).ShiftsBelow [opening, filling, opening] :=
    shiftsBelow_of_makeRoom (by simp)
  exact ⟨hb, by cbv, (feed_sound oneColumn [opening, filling, opening] hb).1⟩

end Decoder
end TickingTable
