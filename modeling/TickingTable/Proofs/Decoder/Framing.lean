import TickingTable.Proofs.Decoder.Bounded
import TickingTable.Proofs.Decoder.Delivered

/-! How a message is cut into frames makes no difference. -/

namespace TickingTable

/-- All columns of a frame bring equally many rows. -/
def Frame.Even (f : Frame) : Prop := ∃ rows, ∀ l ∈ f.cells, l.length = rows

/-- Some column still waits for cells. -/
def Short (m : UpdateMetadata) (cells : List (List Cell)) : Prop :=
  ∃ (i : Nat) (l : List Cell) (modified : RowSet), cells[i]? = some l ∧
    m.modified[i]? = some modified ∧ l.length < m.added.size + modified.size

/-- Frames that bring a message and nothing else. The first of them has the metadata. Even frames
bring the added rows, and then others bring the modified ones. There is no frame too many: before
the last one some column is short. -/
structure Carries (schema : Schema) (m : UpdateMetadata) (adds mods : List (List Cell))
    (fs : List Frame) : Prop where
  started : ∃ f rest, fs = f :: rest ∧ f.update? = some m ∧ ∀ g ∈ rest, g.metadata = none
  conforms : ∀ f ∈ fs, f.Conforms schema
  cut : ∃ as bs, fs = as ++ bs ∧ (∀ f ∈ as, f.Even) ∧ delivered schema.size as = adds ∧
    delivered schema.size bs = mods
  addsCount : ∀ l ∈ adds, l.length = m.added.size
  modsCount : mods.map List.length = m.modified.map RowSet.size
  short : ∀ gs, gs <+: fs → gs ≠ [] → gs ≠ fs → Short m (delivered schema.size gs)

theorem Carries.keysBelow {schema : Schema} {m : UpdateMetadata} {adds mods : List (List Cell)}
    {fs : List Frame} (h : Carries schema m adds mods fs) : m.KeysBelow := by
  obtain ⟨f, rest, _, hupdate, _⟩ := h.started
  exact Frame.keysBelow_of_update? hupdate

namespace PendingMessage

variable {schema : Schema} {p q : PendingMessage} {f : Frame} {as bs : List Frame}

/-- The frames `as` bring the added rows that a message waits for, and the frames `bs` the modified
ones. -/
structure Waits (schema : Schema) (p : PendingMessage) (as bs : List Frame) : Prop where
  even : ∀ f ∈ as, f.Even
  conforms : ∀ f ∈ as ++ bs, f.Conforms schema
  adds : ∀ l ∈ delivered schema.size as, p.addsReceived + l.length = p.metadata.added.size
  mods : Columnwise (fun d modified l => d.modsReceived + l.length = RowSet.size modified)
    p.deliveries p.metadata.modified (delivered schema.size bs)

theorem length_of_getElem?_trimmed {i : Nat} {c : Column} (h : f.trimmed[i]? = some c) :
    f.cells[i]? = some c.cells.toList := by
  rw [← f.map_cells_trimmed, List.getElem?_map, h]
  rfl

namespace Waits

theorem conforms_left (h : Waits schema p as bs) : ∀ f ∈ as, f.Conforms schema :=
  fun f hf => h.conforms f (List.mem_append_left _ hf)

theorem conforms_right (h : Waits schema p as bs) : ∀ f ∈ bs, f.Conforms schema :=
  fun f hf => h.conforms f (List.mem_append_right _ hf)

/-- A message that waits for no frame is complete. -/
theorem isComplete (h : Waits schema p [] []) (hwf : p.WellFormed schema) :
    p.isComplete = true := by
  rw [isComplete_iff]
  constructor
  · unfold addsOutstanding
    rcases Nat.eq_zero_or_pos schema.size with hzero | hpos
    · have := hwf.adds_of_no_columns hzero
      omega
    · have := h.adds [] (by simp [List.mem_replicate]; omega)
      simp at this
      omega
  · intro i d modified hd hi
    have hlt : i < schema.size := by
      rw [← hwf.count]
      exact (List.getElem?_eq_some_iff.1 hd).1
    have := h.mods i d modified [] hd hi (by simp [hlt])
    simpa using this

/-- Without missing added rows all frames bring modified rows. -/
theorem all_mods (h : Waits schema p as bs) (hnone : p.addsOutstanding = 0)
    (hwf : p.WellFormed schema) : Waits schema p [] (as ++ bs) := by
  have hadds := hwf.adds_le
  unfold addsOutstanding at hnone
  refine ⟨by simp, h.conforms, ?_, ?_⟩
  · intro l hl
    obtain ⟨_, rfl⟩ := List.mem_replicate.1 hl
    simp
    omega
  · intro i d modified l hd hi hl
    rw [delivered_append h.conforms_right] at hl
    obtain ⟨k, l, hk, hl', rfl⟩ := List.getElem?_zipWith_eq_some.1 hl
    have hempty := h.adds k (List.mem_of_getElem? hk)
    have := h.mods i d modified l hd hi hl'
    rw [List.length_append]
    omega

theorem absorb_adds (h : Waits schema p (f :: as) bs) (hwf : p.WellFormed schema)
    (hout : 0 < p.addsOutstanding) : ∃ q, Absorbed p f.trimmed q ∧ Waits schema q as bs := by
  have hf := h.conforms f List.mem_cons_self
  have hpos := hwf.size_pos hout
  have hlen := length_delivered (List.forall_mem_cons.1 h.conforms_left).2
  obtain ⟨rows, hrows⟩ := h.even f List.mem_cons_self
  have hsizes : ∀ c ∈ f.trimmed, c.size = rows := by
    intro c hc
    rw [← c.length_cells]
    apply hrows
    rw [← f.map_cells_trimmed]
    exact List.mem_map_of_mem hc
  -- Cells of the frame and of those behind it, in one column.
  have hadds : ∀ l ∈ delivered schema.size as,
      p.addsReceived + rows + l.length = p.metadata.added.size := by
    intro l hl
    obtain ⟨i, hi⟩ := List.mem_iff_getElem?.1 hl
    have hlt : i < f.cells.length := by
      rw [hf.length_cells, ← hlen]
      exact (List.getElem?_eq_some_iff.1 hi).1
    have := h.adds (f.cells[i] ++ l) (List.mem_of_getElem? (List.getElem?_zipWith_eq_some.2
      ⟨_, _, List.getElem?_eq_getElem hlt, hi, rfl⟩))
    rw [List.length_append, hrows _ (List.getElem_mem hlt)] at this
    omega
  have hrest : ∀ f ∈ as ++ bs, f.Conforms schema := (List.forall_mem_cons.1 h.conforms).2
  have heven : ∀ f ∈ as, f.Even := (List.forall_mem_cons.1 h.even).2
  rcases Nat.eq_zero_or_pos rows with rfl | hrowsPos
  · exact ⟨p, .nothing hout hsizes, heven, hrest, hadds, h.mods⟩
  · have hfew := hadds (delivered schema.size as)[0] (List.getElem_mem (by rwa [hlen]))
    refine ⟨_, .adds rows hrowsPos hsizes ?_, heven, hrest, hadds, ?_⟩
    · unfold addsOutstanding
      omega
    · intro i d modified l hd hi hl
      obtain ⟨e, c, he, _, rfl⟩ := List.getElem?_zipWith_eq_some.1 hd
      exact h.mods i e modified l he hi hl

theorem absorb_mods (h : Waits schema p [] (f :: bs)) (hwf : p.WellFormed schema)
    (hnone : p.addsOutstanding = 0) : ∃ q, Absorbed p f.trimmed q ∧ Waits schema q [] bs := by
  have hconforms : ∀ g ∈ bs, g.Conforms schema := (List.forall_mem_cons.1 h.conforms).2
  have hlen := length_delivered hconforms
  have hbring : ∀ (i : Nat) (d : Delivery) (modified : RowSet) (c : Column) (l : List Cell),
      p.deliveries[i]? = some d → p.metadata.modified[i]? = some modified →
      f.trimmed[i]? = some c → (delivered schema.size bs)[i]? = some l →
      d.modsReceived + (c.size + l.length) = modified.size := by
    intro i d modified c l hd hi hc hl
    have := h.mods i d modified (c.cells.toList ++ l) hd hi (List.getElem?_zipWith_eq_some.2
      ⟨_, _, length_of_getElem?_trimmed hc, hl, rfl⟩)
    simpa only [List.length_append, c.length_cells] using this
  refine ⟨_, .mods hnone ?_, by simp, hconforms, h.adds, ?_⟩
  · intro i d modified c hd hi hc
    have hlt : i < (delivered schema.size bs).length := by
      rw [hlen, ← hwf.count]
      exact (List.getElem?_eq_some_iff.1 hd).1
    have := hbring i d modified c _ hd hi hc (List.getElem?_eq_getElem hlt)
    omega
  · intro i d modified l hd hi hl
    obtain ⟨e, c, he, hc, rfl⟩ := List.getElem?_zipWith_eq_some.1 hd
    have := hbring i e modified c l he hi hc hl
    rw [Delivery.modsReceived_addMods]
    omega

/-- A message takes the first of the frames it waits for, and waits for the rest. -/
theorem absorb {rest : List Frame} (h : Waits schema p as bs) (hwf : p.WellFormed schema)
    (hcut : as ++ bs = f :: rest) :
    ∃ q as bs, p.absorb f.trimmed = .ok q ∧ as ++ bs = rest ∧ Waits schema q as bs := by
  have hf := h.conforms f (hcut ▸ List.mem_cons_self)
  rcases Nat.eq_zero_or_pos p.addsOutstanding with hnone | hout
  · have hall := h.all_mods hnone hwf
    rw [hcut] at hall
    obtain ⟨q, habsorbed, hwaits⟩ := hall.absorb_mods hwf hnone
    exact ⟨q, [], rest, (absorb_eq_ok hwf hf.length_trimmed).2 habsorbed, rfl, hwaits⟩
  · cases as with
    | nil =>
      have hpos := hwf.size_pos hout
      have := h.adds [] (List.mem_replicate.2 ⟨by omega, rfl⟩)
      unfold addsOutstanding at hout
      rw [List.length_nil] at this
      omega
    | cons g as =>
      cases hcut
      obtain ⟨q, habsorbed, hwaits⟩ := h.absorb_adds hwf hout
      exact ⟨q, as, bs, (absorb_eq_ok hwf hf.length_trimmed).2 habsorbed, rfl, hwaits⟩

end Waits
end PendingMessage
namespace Decoder

variable {d next : Decoder} {schema : Schema} {p q : PendingMessage} {m : UpdateMetadata}
  {adds mods : List (List Cell)} {f : Frame} {fs as bs : List Frame}

/-- The frames of a message are answered by nothing until the last one completes it. -/
def Ends (d : Decoder) (fs : List Frame) (p : PendingMessage) : Prop :=
  d.runBounded fs = ((d.settleBounded p).1,
    List.replicate (fs.length - 1) (.ok (.ok none)) ++ [(d.settleBounded p).2])

theorem ends_of_complete (hc : f.Conforms d.schema) (hq : d.received f = .ok q)
    (hcomplete : q.isComplete = true) : Ends d [f] q := by
  rw [Ends, runBounded_cons, stepBounded_of_completed (completed?_eq_some.2 ⟨hc, hq, hcomplete⟩)]
  rfl

theorem ends_of_waiting (hc : f.Conforms d.schema) (hq : d.received f = .ok q)
    (hwaits : q.isComplete = false) (hne : fs ≠ [])
    (h : Ends { d with pending := some q } fs p) : Ends d (f :: fs) p := by
  obtain ⟨g, rest, rfl⟩ := List.exists_cons_of_ne_nil hne
  rw [Ends, runBounded_cons, stepBounded_of_waiting hc hq hwaits, h]
  rfl

theorem isComplete_of_short (hq : q.WellFormed schema) (hshort : Short q.metadata q.cells) :
    q.isComplete = false := by
  rw [Bool.eq_false_iff]
  intro hcomplete
  obtain ⟨i, l, modified, hl, hi, hlt⟩ := hshort
  have := hq.isComplete_iff_cells.1 hcomplete i l modified hl hi
  omega

/-- A message that waits for some frames is completed by the last of them. -/
theorem ends_of_waits {rest : List Frame} (hp : d.messageOf f.metadata = .ok p)
    (hwf : p.WellFormed d.schema) (hrest : ∀ g ∈ rest, g.metadata = none)
    (hcut : as ++ bs = f :: rest) (h : PendingMessage.Waits d.schema p as bs)
    (hshort : ∀ gs, gs <+: f :: rest → gs ≠ [] → gs ≠ f :: rest →
      Short p.metadata (List.zipWith (· ++ ·) p.cells (delivered d.schema.size gs))) :
    ∃ q, q.WellFormed d.schema ∧ q.isComplete = true ∧ q.metadata = p.metadata ∧
      q.cells = List.zipWith (· ++ ·) p.cells (delivered d.schema.size (f :: rest)) ∧
      Ends d (f :: rest) q := by
  induction rest generalizing d f p as bs with
  | nil =>
    have hc := h.conforms f (hcut ▸ List.mem_cons_self)
    obtain ⟨q, as', bs', habsorb, hcut', hwaits⟩ := h.absorb hwf hcut
    obtain ⟨rfl, rfl⟩ := List.append_eq_nil_iff.1 hcut'
    have hwf' := hwf.absorb hc.types_trimmed habsorb
    have hcomplete := hwaits.isComplete hwf'
    refine ⟨q, hwf', hcomplete, hwf.metadata_absorb hc.length_trimmed habsorb, ?_,
      ends_of_complete hc (bind_eq_ok.2 ⟨p, hp, habsorb⟩) hcomplete⟩
    rw [hwf.cells_absorb hc.length_trimmed habsorb, f.map_cells_trimmed, delivered_cons,
      delivered_nil, zipWith_append_replicate hc.length_cells]
  | cons g rest ih =>
    have hc := h.conforms f (hcut ▸ List.mem_cons_self)
    obtain ⟨q, as', bs', habsorb, hcut', hwaits⟩ := h.absorb hwf hcut
    have hwf' := hwf.absorb hc.types_trimmed habsorb
    have hmeta := hwf.metadata_absorb hc.length_trimmed habsorb
    have hcells := hwf.cells_absorb hc.length_trimmed habsorb
    rw [f.map_cells_trimmed] at hcells
    have hopen : q.isComplete = false := by
      have hfew := hshort [f] (List.prefix_append [f] (g :: rest)) (by simp) (by simp)
      rw [delivered_cons, delivered_nil, zipWith_append_replicate hc.length_cells, ← hcells,
        ← hmeta] at hfew
      exact isComplete_of_short hwf' hfew
    have hnext : { d with pending := some q }.messageOf g.metadata = .ok q := by
      rw [hrest g List.mem_cons_self]
      rfl
    obtain ⟨r, hwfr, hcomplete, hmetar, hcellsr, hends⟩ := ih hnext hwf'
      (fun g hg => hrest g (List.mem_cons_of_mem _ hg)) hcut' hwaits (by
        intro gs hgs hne hne'
        have := hshort (f :: gs) (List.cons_prefix_cons.2 ⟨rfl, hgs⟩) (by simp)
          (by simpa using hne')
        rwa [delivered_cons, ← zipWith_append_assoc, ← hcells, ← hmeta] at this)
    refine ⟨r, hwfr, hcomplete, hmetar.trans hmeta, ?_,
      ends_of_waiting hc (bind_eq_ok.2 ⟨p, hp, habsorb⟩) hopen (by simp) hends⟩
    rw [hcellsr, delivered_cons _ f, ← zipWith_append_assoc, ← hcells]

/-- A message that starts with the metadata waits for all the frames that carry it. -/
theorem waits_of_start (hf : Carries schema m adds mods fs)
    (hp : PendingMessage.start m schema.size = .ok p) :
    ∃ as bs, as ++ bs = fs ∧ PendingMessage.Waits schema p as bs := by
  obtain ⟨as, bs, rfl, heven, rfl, rfl⟩ := hf.cut
  obtain ⟨_, rfl⟩ := PendingMessage.start_eq_ok.1 hp
  refine ⟨as, bs, rfl, heven, hf.conforms, ?_, ?_⟩
  · intro l hl
    have hlen := length_delivered fun f hf' => hf.conforms f (List.mem_append_left bs hf')
    have hpos : schema.size ≠ 0 := by
      have := List.length_pos_of_mem hl
      omega
    simp [hpos, hf.addsCount l hl]
  · intro i d modified l hd hi hl
    obtain ⟨_, rfl⟩ := List.mem_replicate.1 (List.mem_of_getElem? hd)
    have hcount := congrArg (fun l => l[i]?) hf.modsCount
    simpa [hl, hi] using hcount

theorem ends_of_carries (hidle : d.pending = none) (hf : Carries d.schema m adds mods fs) :
    ∃ q, q.WellFormed d.schema ∧ q.isComplete = true ∧ q.metadata = m ∧ q.adds = adds ∧
      q.mods = mods ∧ Ends d fs q := by
  obtain ⟨f, rest, rfl, hupdate, hrest⟩ := hf.started
  obtain ⟨cas, cbs, hcut, _, hadds, hmods⟩ := hf.cut
  have hconforms : ∀ g ∈ cbs, g.Conforms d.schema := by
    intro g hg
    apply hf.conforms
    rw [hcut]
    exact List.mem_append_right _ hg
  have hdeclared : m.modified.length = d.schema.size := by
    have := congrArg List.length hf.modsCount
    rw [List.length_map, List.length_map, ← hmods, length_delivered hconforms] at this
    exact this.symm
  have hp := PendingMessage.start_eq_ok.2 ⟨hdeclared, rfl⟩
  obtain ⟨as, bs, hcut', hwaits⟩ := waits_of_start hf hp
  have hcells := PendingMessage.cells_start hp
  have hlen := length_delivered hf.conforms
  have hstarted := messageOf_eq_ok.2 (Or.inl ⟨hidle, m, hupdate, hp⟩)
  obtain ⟨q, hwf, hcomplete, hmeta, hq, hends⟩ := ends_of_waits hstarted (.start hp) hrest hcut'
    hwaits (by
      intro gs hgs hne hne'
      rw [hcells, zipWith_replicate_append]
      · exact hf.short gs hgs hne hne'
      · exact length_delivered fun g hg => hf.conforms g (hgs.subset hg))
  have hnone := (PendingMessage.isComplete_iff.1 hcomplete).1
  have hsplit : q.cells = List.zipWith (· ++ ·) adds mods := by
    rw [hq, hcells, zipWith_replicate_append hlen, hcut, delivered_append hconforms, hadds, hmods]
  have hlenAdds : adds.length = mods.length := by
    rw [← hadds, ← hmods, length_delivered hconforms, length_delivered]
    intro g hg
    apply hf.conforms
    rw [hcut]
    exact List.mem_append_left _ hg
  refine ⟨q, hwf, hcomplete, hmeta, ?_, ?_, hends⟩
  · rw [hwf.adds_eq_take hnone, hmeta, hsplit, map_take_zipWith hf.addsCount hlenAdds]
  · rw [hwf.mods_eq_drop hnone, hmeta, hsplit, map_drop_zipWith hf.addsCount hlenAdds]

theorem apply_congr (ha : d.Aligned) (hp : p.WellFormed d.schema) (hq : q.WellFormed d.schema)
    (hpc : p.isComplete = true) (hqc : q.isComplete = true) (hm : p.metadata = q.metadata)
    (hadds : p.adds = q.adds) (hmods : p.mods = q.mods) : d.apply p = d.apply q := by
  cases hr : p.metadata.refusal? d.keys with
  | some e => rw [apply_refused ha hp hpc hr, apply_refused ha hq hqc (hm ▸ hr)]
  | none =>
    obtain ⟨next, u, hok, happlied⟩ := apply_eq_ok ha hp hpc hr
    obtain ⟨next', u', hok', happlied'⟩ := apply_eq_ok ha hq hqc (hm ▸ hr)
    rw [hm, hadds, hmods] at happlied
    obtain ⟨rfl, rfl⟩ := happlied.unique happlied'
    rw [hok, hok']

theorem settleBounded_congr (ha : d.Aligned) (hp : p.WellFormed d.schema)
    (hq : q.WellFormed d.schema) (hpc : p.isComplete = true) (hqc : q.isComplete = true)
    (hm : p.metadata = q.metadata) (hadds : p.adds = q.adds) (hmods : p.mods = q.mods) :
    d.settleBounded p = d.settleBounded q := by
  rw [settleBounded, settleBounded, settle, settle, apply_congr ha hp hq hpc hqc hm hadds hmods, hm]

/-- However a message is cut into frames, all but the last are answered by nothing, and of the last
comes the same: the same update, the same error or a panic. The decoder is the same afterwards. It
panics just over the messages that are told by their keys, in no matter which frames. -/
theorem run_eq_of_carries (schema : Schema) (hs : List Frame)
    (hidle : ((start schema).runBounded hs).1.pending = none) (m : UpdateMetadata)
    (adds mods : List (List Cell)) (fs gs : List Frame) (hf : Carries schema m adds mods fs)
    (hg : Carries schema m adds mods gs) :
    let d := ((start schema).runBounded hs).1
    (d.runBounded fs).1 = (d.runBounded gs).1 ∧ (d.runBounded fs).1.pending = none ∧
      ∃ outcome : Outcome, outcome ≠ .ok (.ok none) ∧
        ((∃ c, outcome = .error c) ↔ m.Crashes d.keys) ∧
        (d.runBounded fs).2 = List.replicate (fs.length - 1) (.ok (.ok none)) ++ [outcome] ∧
        (d.runBounded gs).2 = List.replicate (gs.length - 1) (.ok (.ok none)) ++ [outcome] := by
  intro d
  have h : d.Valid := (Valid.start schema).runBounded hs
  have hschema : d.schema = schema := schema_runBounded _ hs
  rw [← hschema] at hf hg
  obtain ⟨p, hp, hpc, rfl, hpa, hpo, hpends⟩ := ends_of_carries hidle hf
  obtain ⟨q, hq, hqc, hqm, hqa, hqo, hqends⟩ := ends_of_carries hidle hg
  have hsame := settleBounded_congr h.aligned hp hq hpc hqc hqm.symm (hpa.trans hqa.symm)
    (hpo.trans hqo.symm)
  rw [Ends, ← hsame] at hqends
  rw [hpends, hqends]
  exact ⟨rfl, pending_settleBounded d p, (d.settleBounded p).2, settleBounded_ne_none d p,
    crashes_iff_settleBounded h.aligned hf.keysBelow, rfl, rfl⟩

/-- The only front of one frame that is not empty is all of it. -/
theorem front_of_one {P : List Frame → Prop} (gs : List Frame) (h : gs <+: [f]) (hne : gs ≠ [])
    (hne' : gs ≠ [f]) : P gs := by
  rcases List.prefix_cons_iff.1 h with rfl | ⟨t, rfl, ht⟩
  · exact absurd rfl hne
  · rw [List.prefix_nil.1 ht] at hne'
    exact absurd rfl hne'

theorem front_of_two {P : List Frame → Prop} {g : Frame} (hfirst : P [f]) (gs : List Frame)
    (h : gs <+: [f, g]) (hne : gs ≠ []) (hne' : gs ≠ [f, g]) : P gs := by
  rcases List.prefix_cons_iff.1 h with rfl | ⟨t, rfl, ht⟩
  · exact absurd rfl hne
  · by_cases hnil : t = []
    · exact hnil ▸ hfirst
    · exact front_of_one (P := fun t => P (f :: t)) t ht hnil fun hall => hne' (hall ▸ rfl)

/-- A message in one frame. -/
def whole : Frame := { filling with metadata := some makeRoom.encode }

theorem carries_whole : Carries oneColumn makeRoom [[some (.int32 7)]] [[]] [whole] where
  started := ⟨whole, [], rfl, rfl, by simp⟩
  conforms := by
    intro f hf
    obtain rfl := List.mem_singleton.1 hf
    exact ⟨rfl, rfl, by decide⟩
  cut := ⟨[whole], [], rfl, fun f hf => ⟨1, by rw [List.mem_singleton.1 hf]; decide⟩, rfl, rfl⟩
  addsCount := by decide
  modsCount := by decide
  short := front_of_one

theorem carries_opening :
    Carries oneColumn makeRoom [[some (.int32 7)]] [[]] [opening, filling] where
  started := ⟨opening, [filling], rfl, rfl, by decide⟩
  conforms := by
    intro f hf
    rcases List.mem_pair.1 hf with rfl | rfl
    · exact ⟨rfl, rfl, by decide⟩
    · exact ⟨rfl, rfl, by decide⟩
  cut := by
    refine ⟨[opening, filling], [], rfl, ?_, rfl, rfl⟩
    intro f hf
    rcases List.mem_pair.1 hf with rfl | rfl
    · exact ⟨0, by decide⟩
    · exact ⟨1, by decide⟩
  addsCount := by decide
  modsCount := by decide
  short := front_of_two ⟨0, [], .empty, rfl, rfl, by decide⟩

/-- A row may come with the metadata or behind it. -/
theorem run_eq_of_carries_makeRoom :
    Carries oneColumn makeRoom [[some (.int32 7)]] [[]] [opening, filling] ∧
      Carries oneColumn makeRoom [[some (.int32 7)]] [[]] [whole] ∧
      ((start oneColumn).runBounded [opening, filling]).1 =
        ((start oneColumn).runBounded [whole]).1 :=
  ⟨carries_opening, carries_whole, (run_eq_of_carries oneColumn [] rfl makeRoom _ _ _ _
    carries_opening carries_whole).1⟩

/-- A frame with both rows, and frames that bring one row each. -/
def bothRows : Frame :=
  ⟨[⟨.int32, #[some (.int32 7), some (.int32 6)], by decide⟩], [2], some farApart.encode⟩

def firstRow : Frame := { filling with metadata := some farApart.encode }

def secondRow : Frame := ⟨[⟨.int32, #[some (.int32 6)], by decide⟩], [1], none⟩

theorem carries_bothRows :
    Carries oneColumn farApart [[some (.int32 7), some (.int32 6)]] [[]] [bothRows] where
  started := ⟨bothRows, [], rfl, by decide +kernel, by simp⟩
  conforms := by
    intro f hf
    obtain rfl := List.mem_singleton.1 hf
    exact ⟨rfl, rfl, by decide⟩
  cut := ⟨[bothRows], [], rfl, fun f hf => ⟨2, by rw [List.mem_singleton.1 hf]; decide⟩, rfl, rfl⟩
  addsCount := by decide +kernel
  modsCount := by decide
  short := front_of_one

theorem carries_firstRow :
    Carries oneColumn farApart [[some (.int32 7), some (.int32 6)]] [[]]
      [firstRow, secondRow] where
  started := ⟨firstRow, [secondRow], rfl, by decide +kernel, by decide⟩
  conforms := by
    intro f hf
    rcases List.mem_pair.1 hf with rfl | rfl
    · exact ⟨rfl, rfl, by decide⟩
    · exact ⟨rfl, rfl, by decide⟩
  cut := by
    refine ⟨[firstRow, secondRow], [], rfl, ?_, rfl, rfl⟩
    intro f hf
    rcases List.mem_pair.1 hf with rfl | rfl
    · exact ⟨1, by decide⟩
    · exact ⟨1, by decide⟩
  addsCount := by decide +kernel
  modsCount := by decide
  short := front_of_two ⟨0, [some (.int32 7)], .empty, rfl, rfl, by decide +kernel⟩

/-- The sum of a rank and the end of an added interval is no 64-bit number, in whatever frames the
rows come. -/
theorem run_crashes_farApart :
    Carries oneColumn farApart [[some (.int32 7), some (.int32 6)]] [[]] [bothRows] ∧
      Carries oneColumn farApart [[some (.int32 7), some (.int32 6)]] [[]]
        [firstRow, secondRow] ∧
      ((start oneColumn).runBounded [bothRows]).2 = [.error (.overflow ⟨1, reservedKey⟩)] ∧
      ((start oneColumn).runBounded [firstRow, secondRow]).2 =
        [.ok (.ok none), .error (.overflow ⟨1, reservedKey⟩)] :=
  ⟨carries_bothRows, carries_firstRow, by cbv, by cbv⟩

end Decoder
end TickingTable
