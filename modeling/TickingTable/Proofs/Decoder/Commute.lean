import Mathlib
import TickingTable.Proofs.Decoder.Acceptance
import TickingTable.Proofs.Decoder.Keyed

/-! Messages that have no key in common can be applied in either order. -/

namespace TickingTable
namespace UpdateMetadata

open ShiftRange

variable {m m' : UpdateMetadata} {keys keys' : RowSet} {k : Nat}

/-- The message removes, adds or modifies a row with this key. -/
def Touches (m : UpdateMetadata) (k : Nat) : Prop :=
  k ∈ m.removed ∨ k ∈ m.added ∨ ∃ modified ∈ m.modified, k ∈ modified

section

variable (hs : m.shifts = [])

include hs

theorem keeps_of_no_shifts : m.Keeps keys k ↔ k ∈ keys ∧ ¬ k ∈ m.removed := by
  have hmove : ∀ j, moveKey m.shifts j = j := fun j => moveKey_of_before (by simp [hs])
  simp [Keeps, hmove]

theorem shiftsInOrder_of_no_shifts : m.ShiftsInOrder keys := by
  have hmove : ∀ j, moveKey m.shifts j = j := fun j => moveKey_of_before (by simp [hs])
  refine ⟨by simp [hs, Ordered], ?_⟩
  intro j k _ _ _ _ hlt
  rwa [hmove, hmove]

/-- Whether a message without shifts fits depends on the keys that it touches. -/
theorem Fits.of_touched (h : m.Fits keys) (hsame : ∀ k, m.Touches k → (k ∈ keys' ↔ k ∈ keys)) :
    m.Fits keys' := by
  have hkeeps : ∀ k, m.Touches k → (m.Keeps keys' k ↔ m.Keeps keys k) := by
    intro k hk
    rw [keeps_of_no_shifts hs, keeps_of_no_shifts hs, hsame k hk]
  constructor
  · intro k hk
    exact (hsame k (Or.inl hk)).2 (h.removed k hk)
  · exact shiftsInOrder_of_no_shifts hs
  · intro k hk hkept
    exact h.added k hk ((hkeeps k (Or.inr (Or.inl hk))).1 hkept)
  · intro modified hm k hk
    rcases h.modified modified hm k hk with hkept | hadded
    · exact Or.inl ((hkeeps k (Or.inr (Or.inr ⟨modified, hm, hk⟩))).2 hkept)
    · exact Or.inr hadded

end

theorem refusal?_eq_none_iff_fits (hkeys : ∀ k, k ∈ keys → k < reservedKey) :
    m.refusal? keys = none ↔ m.Fits keys := by
  constructor
  · exact fits_of_refusal? hkeys
  · intro h
    cases hr : m.refusal? keys with
    | none => rfl
    | some e => exact absurd (misfit_of_refusal? hkeys hr) h.not_misfit

end UpdateMetadata

/-- Tables of one schema with the same rows are the same. -/
theorem Table.ext_row {t u : Table} (hs : t.schema = u.schema) (hr : t.rows = u.rows)
    (h : ∀ i < t.rows, t.row i = u.row i) : t = u := by
  apply Table.ext_grid hs hr
  apply List.ext_getElem
  · rw [t.length_grid, u.length_grid, hs]
  · intro c hc hc'
    have hlt : t.grid[c].length = t.rows := Table.length_of_mem_grid (List.getElem_mem hc)
    have hlu : u.grid[c].length = u.rows := Table.length_of_mem_grid (List.getElem_mem hc')
    apply List.ext_getElem
    · rw [hlt, hlu, hr]
    · intro i hi hi'
      have hrow := congrArg (·[c]?) (h i (hlt ▸ hi))
      simpa [Table.row, rowOf, List.getElem?_eq_getElem hc, List.getElem?_eq_getElem hc',
        List.getElem?_eq_getElem hi, List.getElem?_eq_getElem hi'] using hrow

namespace KeyedRows

/-- What a message makes of the row with key `k`. -/
def rowAfter (m : UpdateMetadata) (adds mods : List (List Cell)) (k : Nat) (row : List Cell) :
    List Cell :=
  overwriteRow m.modified mods k (if k ∈ m.added then rowOf adds (m.added.rank k) else row)

variable {m : UpdateMetadata} {adds mods : List (List Cell)} {k : Nat} {row : List Cell}

theorem rowAfter_of_untouched (h : ¬ m.Touches k) (hmods : mods.length = m.modified.length)
    (hrow : row.length = m.modified.length) : rowAfter m adds mods k row = row := by
  have hadded : ¬ k ∈ m.added := fun hk => h (Or.inr (Or.inl hk))
  rw [rowAfter, if_neg hadded, overwriteRow]
  apply zipWith_eq_left
  · simp [hrow, hmods]
  · intro cell _ x hx
    exact if_neg fun hk => h (Or.inr (Or.inr ⟨x.1, (List.of_mem_zip hx).1, hk⟩))

end KeyedRows

namespace Decoder

open KeyedRows

variable {d d' next next' : Decoder} {p q : PendingMessage} {u u' : Update} {f : Frame}
  {fs gs : List Frame} {m m' : UpdateMetadata} {adds mods adds' mods' : List (List Cell)} {k : Nat}

/-- The row of the table that has this key. -/
def rowAt (d : Decoder) (k : Nat) : List Cell := d.current.row (d.keys.rank k)

theorem length_rowAt (ha : d.Aligned) : (d.rowAt k).length = d.schema.size := by
  rw [rowAt, Table.row, rowOf, List.length_map, Table.length_grid, ha.schema]

/-- A table is told by its keys and their rows. -/
theorem ext_rowAt (ha : d.Aligned) (ha' : d'.Aligned) (hs : d.schema = d'.schema)
    (hkeys : d.keys = d'.keys) (h : ∀ k, k ∈ d.keys → d.rowAt k = d'.rowAt k) :
    d.current = d'.current := by
  apply Table.ext_row
  · rw [ha.schema, ha'.schema, hs]
  · rw [ha.rows, ha'.rows, hkeys]
  · intro i hi
    have hlt : i < d.keys.toList.length := by rwa [RowSet.length_toList, ← ha.rows]
    have hrank := RowSet.rank_eq_of_getElem? (List.getElem?_eq_getElem hlt)
    have hrow := h _ (RowSet.mem_toList.1 (List.getElem_mem hlt))
    rw [rowAt, rowAt, ← hkeys, hrank] at hrow
    exact hrow

namespace Applied

theorem mem_keys (h : Applied d m adds mods next u) (ha : d.Aligned) (hs : m.shifts = []) :
    k ∈ next.keys ↔ (k ∈ d.keys ∧ ¬ k ∈ m.removed) ∨ k ∈ m.added := by
  obtain ⟨shifted, hshift, _, hkeys⟩ := h.keys
  rw [hkeys, RowSet.mem_union, UpdateMetadata.mem_shifted ha.below hshift,
    UpdateMetadata.keeps_of_no_shifts hs]

/-- The keys that a message does not touch stay or stay away. -/
theorem mem_keys_of_untouched (h : Applied d m adds mods next u) (ha : d.Aligned)
    (hs : m.shifts = []) (hk : ¬ m.Touches k) : k ∈ next.keys ↔ k ∈ d.keys := by
  have hremoved : ¬ k ∈ m.removed := fun hr => hk (Or.inl hr)
  have hadded : ¬ k ∈ m.added := fun hr => hk (Or.inr (Or.inl hr))
  rw [h.mem_keys ha hs]
  simp [hremoved, hadded]

theorem rowAt_eq (h : Applied d m adds mods next u) (ha : d.Aligned) (hs : m.shifts = [])
    (hadds : adds.length = d.schema.size) (hk : k ∈ next.keys) :
    next.rowAt k = rowAfter m adds mods k (d.rowAt k) := by
  rw [rowAt, h.current_eq, h.row_current ha hk, rowAfter]
  by_cases hadded : k ∈ m.added
  · rw [if_pos hadded, h.row_added ha hadds hadded]
  · obtain ⟨hkd, hkept⟩ : k ∈ d.keys ∧ ¬ k ∈ m.removed := by
      rcases (h.mem_keys ha hs).1 hk with hkept | hk
      · exact hkept
      · exact absurd hk hadded
    have hrow := h.row_kept ha hadds (RowSet.mem_difference.2 ⟨hkd, hkept⟩)
    rw [ShiftRange.moveKey_of_before (by simp [hs])] at hrow
    rw [if_neg hadded, hrow, rowAt]

end Applied

/-- A complete message whose rows are there and whose keys stay where they are. -/
structure Ready (schema : Schema) (q : PendingMessage) : Prop where
  wellFormed : q.WellFormed schema
  complete : q.isComplete = true
  keysBelow : q.metadata.KeysBelow
  still : q.metadata.shifts = []

namespace Ready

variable {schema : Schema}

theorem length_adds (h : Ready schema q) : q.adds.length = schema.size := by
  rw [PendingMessage.adds, List.length_map, h.wellFormed.count]

theorem length_mods (h : Ready schema q) : q.mods.length = q.metadata.modified.length := by
  rw [PendingMessage.mods, List.length_map, h.wellFormed.count, h.wellFormed.declared]

theorem spares (h : Ready d.schema q) : d.Spares q.metadata := by
  refine ⟨h.keysBelow, ?_⟩
  rw [h.still]
  intro k _ s hs
  cases hs

theorem apply_iff (h : Ready d.schema q) (ha : d.Aligned) :
    (∃ next u, d.apply q = .ok (next, u)) ↔ q.metadata.Fits d.keys := by
  rw [← UpdateMetadata.refusal?_eq_none_iff_fits ha.below]
  constructor
  · rintro ⟨next, u, hok⟩
    exact (applied_of_apply ha h.wellFormed h.complete hok).1
  · intro hnone
    obtain ⟨next, u, hok, _⟩ := apply_eq_ok ha h.wellFormed h.complete hnone
    exact ⟨next, u, hok⟩

/-- A row that a message does not touch is the same as before it. -/
theorem rowAfter_eq (h : Ready d.schema q) (ha : d.Aligned) (hk : ¬ q.metadata.Touches k) :
    rowAfter q.metadata q.adds q.mods k (d.rowAt k) = d.rowAt k :=
  rowAfter_of_untouched hk h.length_mods
    ((length_rowAt ha).trans h.wellFormed.declared.symm)

end Ready

/-- A message still fits after another one that has no key in common with it. -/
theorem apply_after (ha : d.Aligned) (hp : Ready d.schema p) (hq : Ready d.schema q)
    (happ : Applied d p.metadata p.adds p.mods next u)
    (hdisjoint : ∀ k, ¬ (p.metadata.Touches k ∧ q.metadata.Touches k))
    (hfits : q.metadata.Fits d.keys) :
    ∃ last v, next.apply q = .ok (last, v) ∧
      Applied next q.metadata q.adds q.mods last v := by
  have ha' : next.Aligned := happ.aligned ha hp.spares
  have hq' : Ready next.schema q := happ.schema_eq ▸ hq
  have hfits' : q.metadata.Fits next.keys := by
    apply hfits.of_touched hq.still
    intro k hk
    exact happ.mem_keys_of_untouched ha hp.still fun hk' => hdisjoint k ⟨hk', hk⟩
  exact apply_eq_ok ha' hq'.wellFormed hq'.complete
    ((UpdateMetadata.refusal?_eq_none_iff_fits ha'.below).2 hfits')

section Two

variable {last last' : Decoder} {v v' : Update}
  (ha : d.Aligned) (hp : Ready d.schema p) (hq : Ready d.schema q)
  (happ : Applied d p.metadata p.adds p.mods next u)
  (happ' : Applied d q.metadata q.adds q.mods next' u')
  (hlast : Applied next q.metadata q.adds q.mods last v)
  (hlast' : Applied next' p.metadata p.adds p.mods last' v')

include ha hp hq happ happ' hlast hlast'

theorem mem_keys_comm (hk : ¬ q.metadata.Touches k) : k ∈ last.keys ↔ k ∈ last'.keys := by
  have ha₁ : next.Aligned := happ.aligned ha hp.spares
  have ha₂ : next'.Aligned := happ'.aligned ha hq.spares
  rw [hlast.mem_keys_of_untouched ha₁ hq.still hk, happ.mem_keys ha hp.still,
    hlast'.mem_keys ha₂ hp.still, happ'.mem_keys_of_untouched ha hq.still hk]

theorem rowAt_comm (hk : ¬ q.metadata.Touches k) (hmem : k ∈ last.keys) :
    last.rowAt k = last'.rowAt k := by
  have ha₁ : next.Aligned := happ.aligned ha hp.spares
  have ha₂ : next'.Aligned := happ'.aligned ha hq.spares
  have hp' : Ready next'.schema p := happ'.schema_eq ▸ hp
  have hq' : Ready next.schema q := happ.schema_eq ▸ hq
  have hmem' : k ∈ last'.keys :=
    (mem_keys_comm ha hp hq happ happ' hlast hlast' hk).1 hmem
  have hmem₁ : k ∈ next.keys := (hlast.mem_keys_of_untouched ha₁ hq.still hk).1 hmem
  rw [hlast.rowAt_eq ha₁ hq.still hq'.length_adds hmem, hq'.rowAfter_eq ha₁ hk,
    happ.rowAt_eq ha hp.still hp.length_adds hmem₁,
    hlast'.rowAt_eq ha₂ hp.still hp'.length_adds hmem']
  -- An added row is the same whatever stood there, and any other was there from the beginning.
  by_cases hadded : k ∈ p.metadata.added
  · rw [rowAfter, rowAfter, if_pos hadded, if_pos hadded]
  · obtain ⟨hmem₂, _⟩ : k ∈ next'.keys ∧ ¬ k ∈ p.metadata.removed := by
      rcases (hlast'.mem_keys ha₂ hp.still).1 hmem' with hkept | hk
      · exact hkept
      · exact absurd hk hadded
    rw [happ'.rowAt_eq ha hq.still hq.length_adds hmem₂, hq.rowAfter_eq ha hk]

end Two

/-- Two messages that have no key in common make the same decoder in either order. -/
theorem apply_comm (ha : d.Aligned) (hp : Ready d.schema p) (hq : Ready d.schema q)
    (hdisjoint : ∀ k, ¬ (p.metadata.Touches k ∧ q.metadata.Touches k))
    (happly : d.apply p = .ok (next, u)) (happly' : d.apply q = .ok (next', u')) :
    ∃ last v v', next.apply q = .ok (last, v) ∧ next'.apply p = .ok (last, v') := by
  have hdisjoint' : ∀ k, ¬ (q.metadata.Touches k ∧ p.metadata.Touches k) :=
    fun k h => hdisjoint k ⟨h.2, h.1⟩
  have hfits := (hp.apply_iff ha).1 ⟨next, u, happly⟩
  have hfits' := (hq.apply_iff ha).1 ⟨next', u', happly'⟩
  have happ := (applied_of_apply ha hp.wellFormed hp.complete happly).2
  have happ' := (applied_of_apply ha hq.wellFormed hq.complete happly').2
  obtain ⟨last, v, hlast, happlied⟩ := apply_after ha hp hq happ hdisjoint hfits'
  obtain ⟨last', v', hlast', happlied'⟩ := apply_after ha hq hp happ' hdisjoint' hfits
  have ha₁ : next.Aligned := happ.aligned ha hp.spares
  have ha₂ : next'.Aligned := happ'.aligned ha hq.spares
  have hp' : Ready next'.schema p := happ'.schema_eq ▸ hp
  have hq' : Ready next.schema q := happ.schema_eq ▸ hq
  have hkeys : last.keys = last'.keys := by
    rw [RowSet.eq_iff_mem]
    intro k
    by_cases hk : q.metadata.Touches k
    · have hk' : ¬ p.metadata.Touches k := fun h => hdisjoint k ⟨h, hk⟩
      exact (mem_keys_comm ha hq hp happ' happ happlied' happlied hk').symm
    · exact mem_keys_comm ha hp hq happ happ' happlied happlied' hk
  have hschema : last.schema = last'.schema := by
    rw [happlied.schema_eq, happlied'.schema_eq, happ.schema_eq, happ'.schema_eq]
  have hcurrent : last.current = last'.current := by
    apply ext_rowAt (happlied.aligned ha₁ hq'.spares) (happlied'.aligned ha₂ hp'.spares) hschema
      hkeys
    intro k hmem
    by_cases hk : q.metadata.Touches k
    · have hk' : ¬ p.metadata.Touches k := fun h => hdisjoint k ⟨h, hk⟩
      exact (rowAt_comm ha hq hp happ' happ happlied' happlied hk' (hkeys ▸ hmem)).symm
    · exact rowAt_comm ha hp hq happ happ' happlied happlied' hk hmem
  obtain rfl : last = last' := by
    have hrest := happlied.rest
    have hrest' := happlied'.rest
    rw [← happlied.current_eq] at hrest
    rw [← happlied'.current_eq] at hrest'
    rw [hrest, hrest', hkeys, hcurrent, happ.rest, happ'.rest]
  exact ⟨last, v, v', hlast, hlast'⟩

/-- The frames are answered by nothing until the last of them completes the message `m`, which is
applied. -/
structure Accepts (d : Decoder) (m : UpdateMetadata) (fs : List Frame) : Prop where
  started : fs.head?.bind Frame.update? = some m
  completed : ∃ u, (d.runBounded fs).2 =
    List.replicate (fs.length - 1) (.ok (.ok none)) ++ [.ok (.ok (some u))]

theorem received_congr (hs : d.schema = d'.schema) (hpending : d.pending = d'.pending)
    (f : Frame) : d.received f = d'.received f := by
  unfold received messageOf
  rw [hs, hpending]

/-- Frames that complete a message in one decoder do so in any other that waits for the same. -/
theorem exists_ends (h : d.Orderly)
    (hcompleted : d.answers fs = List.replicate (fs.length - 1) (.ok none) ++ [.ok (some u)])
    (hm : (d.pending = none ∧ fs.head?.bind Frame.update? = some m) ∨
      ∃ p, d.pending = some p ∧ p.metadata = m) :
    ∃ q next, q.WellFormed d.schema ∧ q.isComplete = true ∧ q.metadata = m ∧
      d.apply q = .ok (next, u) ∧
      ∀ d' : Decoder, d'.schema = d.schema → d'.pending = d.pending → Ends d' fs q := by
  induction fs generalizing d with
  | nil => simp [answers] at hcompleted
  | cons f fs ih =>
    have hmeta : ∀ q, f.Conforms d.schema → d.received f = .ok q → q.metadata = m := by
      intro q hc hq
      rcases h.metadata_received hc hq with ⟨hidle, hf⟩ | ⟨p, hopen, hp⟩
      · have hm := (hm.resolve_right (by simp [hidle])).2
        exact Option.some.inj (hf.symm.trans hm)
      · obtain ⟨p', hopen', hm⟩ := hm.resolve_left (by simp [hopen])
        cases hopen.symm.trans hopen'
        exact hp.symm.trans hm
    have htaken := taken_step d f
    rw [answers] at hcompleted
    generalize hnext : (d.step f).1 = next', (d.step f).2 = answer at htaken hcompleted
    cases fs with
    | nil =>
      obtain rfl : answer = .ok (some u) := by simpa [answers] using hcompleted
      cases htaken with
      | completed q next u hc hq hcomplete hu =>
        refine ⟨q, _, h.wellFormed_received hc hq, hcomplete, hmeta q hc hq, hu, ?_⟩
        intro d' hs hpending
        exact ends_of_complete (hs ▸ hc) ((received_congr hs hpending f).trans hq) hcomplete
    | cons g fs =>
      obtain ⟨rfl, hrest⟩ : answer = .ok none ∧
          next'.answers (g :: fs) = List.replicate fs.length (.ok none) ++ [.ok (some u)] := by
        simpa [List.replicate_succ] using hcompleted
      cases htaken with
      | waiting q hc hq hwaits =>
        have horderly : { d with pending := some q }.Orderly := by
          intro q' hq'
          cases hq'
          exact h.wellFormed_received hc hq
        obtain ⟨r, next, hwf, hcomplete, hr, happly, hends⟩ :=
          ih horderly hrest (Or.inr ⟨q, rfl, hmeta q hc hq⟩)
        refine ⟨r, next, hwf, hcomplete, hr, happly, ?_⟩
        intro d' hs hpending
        exact ends_of_waiting (hs ▸ hc) ((received_congr hs hpending f).trans hq) hwaits (by simp)
          (hends { d' with pending := some q } hs rfl)

/-- An accepted message is answered as without a bound. -/
theorem Accepts.exists_answers (h : d.Accepts m fs) : ∃ u, d.answers fs =
    List.replicate (fs.length - 1) (.ok none) ++ [.ok (some u)] := by
  obtain ⟨u, hcompleted⟩ := h.completed
  have hcalm : ∀ outcome ∈ (d.runBounded fs).2, ∃ answer, outcome = .ok answer := by
    intro outcome hmem
    rw [hcompleted, List.mem_append] at hmem
    rcases hmem with hmem | hmem
    · exact ⟨_, (List.mem_replicate.1 hmem).2⟩
    · exact ⟨_, List.mem_singleton.1 hmem⟩
  have hanswers := congrArg Prod.snd (runBounded_eq hcalm)
  rw [hcompleted] at hanswers
  refine ⟨u, List.map_injective_iff.2 (fun _ _ => Except.ok.inj) (hanswers.symm.trans ?_)⟩
  simp

/-- The frames of an accepted message bring it to any decoder of the schema that is idle. -/
theorem Accepts.exists_ready (h : d.Accepts m fs) (hidle : d.pending = none)
    (hs : m.shifts = []) :
    ∃ q, Ready d.schema q ∧ q.metadata = m ∧
      ∀ d' : Decoder, d'.schema = d.schema → d'.pending = none → Ends d' fs q := by
  obtain ⟨u, hcompleted⟩ := h.exists_answers
  obtain ⟨q, next, hwf, hcomplete, hq, _, hends⟩ :=
    exists_ends (.of_pending_eq_none hidle) hcompleted (Or.inl ⟨hidle, h.started⟩)
  obtain ⟨f, _, hf⟩ := Option.bind_eq_some_iff.1 h.started
  refine ⟨q, ⟨hwf, hcomplete, ?_, ?_⟩, hq, ?_⟩
  · rw [hq]
    exact Frame.keysBelow_of_update? hf
  · rw [hq, hs]
  · intro d' hschema hidle'
    exact hends d' hschema (hidle'.trans hidle.symm)

theorem settleBounded_eq_update : (∃ u, (d.settleBounded q).2 = .ok (.ok (some u))) ↔
    bounds d.keys q.metadata = .ok () ∧ ∃ u, d.apply q = .ok ((d.settleBounded q).1, u) := by
  unfold settleBounded settle
  cases bounds d.keys q.metadata with
  | error c => exact iff_of_false nofun (fun h => nomatch h.1)
  | ok _ =>
    cases d.apply q with
    | error e => exact iff_of_false nofun nofun
    | ok x => exact iff_of_true ⟨x.2, rfl⟩ ⟨rfl, x.2, rfl⟩

theorem Ends.accepts_iff (h : Ends d fs q) (hm : fs.head?.bind Frame.update? = some m) :
    d.Accepts m fs ↔ ∃ u, (d.settleBounded q).2 = .ok (.ok (some u)) := by
  have houtcomes := congrArg Prod.snd h
  constructor
  · rintro ⟨_, u, hcompleted⟩
    have hlast := houtcomes.symm.trans hcompleted
    exact ⟨u, by simpa using hlast⟩
  · rintro ⟨u, hu⟩
    rw [hu] at houtcomes
    exact ⟨hm, u, houtcomes⟩

theorem Ends.exists_apply (h : Ends d fs q) (hm : d.Accepts m fs) :
    ∃ u, d.apply q = .ok ((d.runBounded fs).1, u) := by
  rw [congrArg Prod.fst h]
  exact (settleBounded_eq_update.1 ((h.accepts_iff hm.started).1 hm)).2

/-- A message that could be applied without a bound is accepted just if the decoder does not
panic over it. -/
theorem Ends.accepts_iff_not_crashes {x : Decoder × Update} (h : Ends d fs q) (ha : d.Aligned)
    (hq : q.metadata.KeysBelow) (hm : fs.head?.bind Frame.update? = some q.metadata)
    (hx : d.apply q = .ok x) : d.Accepts q.metadata fs ↔ ¬ q.metadata.Crashes d.keys := by
  rw [h.accepts_iff hm, settleBounded_eq_update, ← bounds_eq_ok ha hq, and_iff_left_iff_imp]
  intro hok
  rw [settleBounded_of_ok hok, settle, hx]
  exact ⟨x.2, rfl⟩

/-- Two messages without shifts that an idle decoder accepts, and that have no key in common, can
be fed to it in either order. The second one is accepted as well unless the decoder panics over it,
and if both are accepted in both orders the decoder is the same afterwards. -/
theorem run_comm (schema : Schema) (hs : List Frame)
    (hidle : ((start schema).runBounded hs).1.pending = none) (m m' : UpdateMetadata)
    (fs gs : List Frame) (hm : ((start schema).runBounded hs).1.Accepts m fs)
    (hm' : ((start schema).runBounded hs).1.Accepts m' gs) (hstill : m.shifts = [])
    (hstill' : m'.shifts = []) (hdisjoint : ∀ k, ¬ (m.Touches k ∧ m'.Touches k)) :
    let d := ((start schema).runBounded hs).1
    let next := (d.runBounded fs).1
    let next' := (d.runBounded gs).1
    (next.Accepts m' gs ↔ ¬ m'.Crashes next.keys) ∧
    (next'.Accepts m fs ↔ ¬ m.Crashes next'.keys) ∧
    (next.Accepts m' gs → next'.Accepts m fs →
      (d.runBounded (fs ++ gs)).1 = (d.runBounded (gs ++ fs)).1) := by
  intro d next next'
  have h : d.Valid := (Valid.start schema).runBounded hs
  obtain ⟨p, hp, rfl, hends⟩ := hm.exists_ready hidle hstill
  obtain ⟨q, hq, rfl, hends'⟩ := hm'.exists_ready hidle hstill'
  obtain ⟨u, happly⟩ := (hends d rfl hidle).exists_apply hm
  obtain ⟨u', happly'⟩ := (hends' d rfl hidle).exists_apply hm'
  obtain ⟨last, v, v', hlast, hlast'⟩ := apply_comm h.aligned hp hq hdisjoint happly happly'
  obtain ⟨hidle₁, hschema₁⟩ := pending_of_apply happly
  obtain ⟨hidle₂, hschema₂⟩ := pending_of_apply happly'
  have h₁₂ : Ends next gs q := hends' next hschema₁ hidle₁
  have h₂₁ : Ends next' fs p := hends next' hschema₂ hidle₂
  refine ⟨h₁₂.accepts_iff_not_crashes (h.runBounded fs).aligned hq.keysBelow hm'.started hlast,
    h₂₁.accepts_iff_not_crashes (h.runBounded gs).aligned hp.keysBelow hm.started hlast', ?_⟩
  intro haccepts haccepts'
  obtain ⟨w, hw⟩ := h₁₂.exists_apply haccepts
  obtain ⟨w', hw'⟩ := h₂₁.exists_apply haccepts'
  have hsame : (next.runBounded gs).1 = last := by cases hlast.symm.trans hw; rfl
  have hsame' : (next'.runBounded fs).1 = last := by cases hlast'.symm.trans hw'; rfl
  rw [runBounded_append, runBounded_append]
  exact hsame.trans hsame'.symm

/-- Whether a message is accepted shows in which outcomes are updates. -/
theorem Accepts.of_map (hm : fs.head?.bind Frame.update? = some m)
    (h : (d.runBounded fs).2.map (Except.map (Except.map Option.isSome)) =
      List.replicate (fs.length - 1) (.ok (.ok false)) ++ [.ok (.ok true)]) : d.Accepts m fs := by
  have houtcome : ∀ (o : Outcome) (b : Bool), o.map (Except.map Option.isSome) = .ok (.ok b) →
      ∃ x, o = .ok (.ok x) ∧ x.isSome = b := by
    rintro (c | e | x) b hob
    · cases hob
    · cases hob
    · exact ⟨x, rfl, Except.ok.inj (Except.ok.inj hob)⟩
  obtain ⟨init, last, houtcomes, hinit, hlast⟩ := List.map_eq_append_iff.1 h
  obtain ⟨o, rfl, ho⟩ := List.map_eq_singleton_iff.1 hlast
  obtain ⟨x, rfl, hx⟩ := houtcome o true ho
  obtain ⟨u, rfl⟩ := Option.isSome_iff_exists.1 hx
  refine ⟨hm, u, ?_⟩
  rw [houtcomes, List.append_cancel_right_eq, List.eq_replicate_iff]
  refine ⟨by simpa using congrArg List.length hinit, ?_⟩
  intro o ho
  have hmem : o.map (Except.map Option.isSome) ∈
      List.replicate (fs.length - 1) (.ok (.ok false)) := hinit ▸ List.mem_map_of_mem ho
  obtain ⟨y, rfl, hy⟩ := houtcome o false (List.mem_replicate.1 hmem).2
  rw [Option.isSome_eq_false_iff, Option.isNone_iff_eq_none] at hy
  rw [hy]

/-- Adds the rows of keys 0 and 1. -/
def addTwo : UpdateMetadata := ⟨0, 0, true, .empty, [], .positions 2, [.empty]⟩

/-- Removes key 0. -/
def removeFirst : UpdateMetadata := ⟨1, 1, false, .positions 1, [], .empty, [.empty]⟩

/-- Adds key 5 and modifies key 1. -/
def addAndModify : UpdateMetadata := ⟨2, 2, false, .empty, [], .ofKeys [5], [.ofKeys [1]]⟩

def twoRows : Frame :=
  ⟨[⟨.int32, #[some (.int32 1), some (.int32 2)], by decide⟩], [2], some addTwo.encode⟩

def removing : List Frame := [⟨[.empty .int32], [0], some removeFirst.encode⟩]

def modifying : List Frame := [{ filling with metadata := some addAndModify.encode }, filling]

def twoRowed : Decoder := ((start oneColumn).runBounded [twoRows]).1

theorem accepts_removing : twoRowed.Accepts removeFirst removing := by
  have hlast : (twoRowed.runBounded removing).2.map (Except.map (Except.map Option.isSome)) =
      [.ok (.ok true)] := by cbv
  exact .of_map rfl hlast

theorem accepts_modifying : twoRowed.Accepts addAndModify modifying := by
  have hlast : (twoRowed.runBounded modifying).2.map (Except.map (Except.map Option.isSome)) =
      [.ok (.ok false), .ok (.ok true)] := by cbv
  exact .of_map rfl hlast

theorem accepts_removing_behind :
    (twoRowed.runBounded modifying).1.Accepts removeFirst removing := by
  have hlast : ((twoRowed.runBounded modifying).1.runBounded removing).2.map
      (Except.map (Except.map Option.isSome)) = [.ok (.ok true)] := by cbv
  exact .of_map rfl hlast

theorem accepts_modifying_behind :
    (twoRowed.runBounded removing).1.Accepts addAndModify modifying := by
  have hlast : ((twoRowed.runBounded removing).1.runBounded modifying).2.map
      (Except.map (Except.map Option.isSome)) = [.ok (.ok false), .ok (.ok true)] := by cbv
  exact .of_map rfl hlast

/-- A row is removed, and another one is added and a third one modified. -/
theorem run_comm_removeFirst :
    (twoRowed.runBounded (removing ++ modifying)).1 =
      (twoRowed.runBounded (modifying ++ removing)).1 := by
  have hdisjoint : ∀ k, ¬ (removeFirst.Touches k ∧ addAndModify.Touches k) := by
    rintro k ⟨hk, hk'⟩
    have hzero : k < 1 := by
      rcases hk with hk | hk | ⟨modified, hm, hk⟩
      · exact RowSet.mem_positions.1 hk
      · exact absurd hk RowSet.not_mem_empty
      · obtain rfl := List.mem_singleton.1 hm
        exact absurd hk RowSet.not_mem_empty
    obtain rfl : k = 0 := by omega
    rcases hk' with hk | hk | ⟨modified, hm, hk⟩
    · exact absurd hk RowSet.not_mem_empty
    · exact absurd hk (by decide)
    · obtain rfl := List.mem_singleton.1 hm
      exact absurd hk (by decide)
  have hidle : twoRowed.pending = none := by cbv
  exact (run_comm oneColumn [twoRows] hidle _ _ _ _ accepts_removing accepts_modifying rfl rfl
    hdisjoint).2.2 accepts_modifying_behind accepts_removing_behind

/-- Adds a row with the first key. -/
def addFirst : UpdateMetadata := ⟨0, 0, true, .empty, [], .positions 1, [.empty]⟩

/-- Adds a row with the last key that rows can have. -/
def addLast : UpdateMetadata := ⟨0, 0, true, .empty, [], .ofKeys [reservedKey - 1], [.empty]⟩

def firstKey : Frame := { filling with metadata := some addFirst.encode }

def lastKey : Frame := { filling with metadata := some addLast.encode }

theorem accepts_firstKey : (start oneColumn).Accepts addFirst [firstKey] := by
  have hlast : ((start oneColumn).runBounded [firstKey]).2.map
      (Except.map (Except.map Option.isSome)) = [.ok (.ok true)] := by cbv
  exact .of_map rfl hlast

theorem update?_lastKey : lastKey.update? = some addLast := by decide +kernel

theorem accepts_lastKey : (start oneColumn).Accepts addLast [lastKey] := by
  have hlast : ((start oneColumn).runBounded [lastKey]).2.map
      (Except.map (Except.map Option.isSome)) = [.ok (.ok true)] := by cbv
  exact .of_map update?_lastKey hlast

theorem accepts_firstKey_behind :
    ((start oneColumn).runBounded [lastKey]).1.Accepts addFirst [firstKey] := by
  have hlast : (((start oneColumn).runBounded [lastKey]).1.runBounded [firstKey]).2.map
      (Except.map (Except.map Option.isSome)) = [.ok (.ok true)] := by cbv
  exact .of_map rfl hlast

/-- Each row can be added to an empty table, and the first behind the last one, but the decoder panics
over the last row behind the first one. -/
theorem run_comm_crashes_lastKey :
    (start oneColumn).Accepts addFirst [firstKey] ∧ (start oneColumn).Accepts addLast [lastKey] ∧
      (∀ k, ¬ (addFirst.Touches k ∧ addLast.Touches k)) ∧
      ((start oneColumn).runBounded [lastKey]).1.Accepts addFirst [firstKey] ∧
      (((start oneColumn).runBounded [firstKey]).1.runBounded [lastKey]).2 =
        [.error (.overflow ⟨1, reservedKey⟩)] := by
  refine ⟨accepts_firstKey, accepts_lastKey, ?_, accepts_firstKey_behind, by cbv⟩
  rintro k ⟨hk, hk'⟩
  have hzero : k < 1 := by
    rcases hk with hk | hk | ⟨modified, hm, hk⟩
    · exact absurd hk RowSet.not_mem_empty
    · exact RowSet.mem_positions.1 hk
    · obtain rfl := List.mem_singleton.1 hm
      exact absurd hk RowSet.not_mem_empty
  obtain rfl : k = 0 := by omega
  rcases hk' with hk | hk | ⟨modified, hm, hk⟩
  · exact absurd hk RowSet.not_mem_empty
  · exact absurd hk (by decide +kernel)
  · obtain rfl := List.mem_singleton.1 hm
    exact absurd hk RowSet.not_mem_empty

end Decoder
end TickingTable
