import TickingTable.Proofs.Decoder.Delivered
import TickingTable.Proofs.Decoder.Tally

/-! A message takes each frame by what is missing of it, and is applied with the frame that brings
the last missing row. -/

namespace TickingTable

/-- The frames fit the schema, and the first one, but none of the others, has the metadata `m`. -/
structure Announced (schema : Schema) (m : UpdateMetadata) (fs : List Frame) : Prop where
  conforms : ∀ f ∈ fs, f.Conforms schema
  first : ∀ f, fs.head? = some f → f.update? = some m
  others : ∀ f ∈ fs.tail, f.metadata = none

/-- What has come of a message with some frames, none of which was refused. -/
def Tally.after (m : UpdateMetadata) (fs : List Frame) : Tally :=
  fs.foldl (fun t f => t.count m f.sizes) (zero m.modified.length)

theorem Tally.after_snoc (m : UpdateMetadata) (fs : List Frame) (f : Frame) :
    after m (fs ++ [f]) = (after m fs).count m f.sizes := List.foldl_append

section

variable {schema : Schema} {m : UpdateMetadata} {fs gs : List Frame} {f : Frame}

theorem Announced.left (h : Announced schema m (fs ++ gs)) : Announced schema m fs where
  conforms g hg := h.conforms g (List.mem_append_left gs hg)
  first g hg := h.first g (by rw [List.head?_append, hg]; rfl)
  others g hg := by
    cases fs with
    | nil => cases hg
    | cons _ fs => exact h.others g (List.mem_append_left gs hg)

theorem Announced.conforms_last (h : Announced schema m (fs ++ [f])) : f.Conforms schema :=
  h.conforms f (by simp)

theorem Announced.metadata_last (h : Announced schema m (fs ++ [f])) (hne : fs ≠ []) :
    f.metadata = none := by
  obtain ⟨g, fs, rfl⟩ := List.exists_cons_of_ne_nil hne
  exact h.others f (by simp)

namespace PendingMessage

variable {p q : PendingMessage}

/-- The message has the metadata `m` and the rows that the frames `fs` bring. -/
structure Brought (schema : Schema) (m : UpdateMetadata) (fs : List Frame) (p : PendingMessage) :
    Prop where
  wellFormed : p.WellFormed schema
  metadata : p.metadata = m
  tally : p.tally = .after m fs
  cells : p.cells = delivered schema.size fs

namespace Brought

theorem start (hpos : 0 < schema.size) (h : start m schema.size = .ok p) :
    p.Brought schema m [] where
  wellFormed := .start h
  metadata := by rw [(start_eq_ok.1 h).2]
  tally := by rw [tally_start hpos h, Tally.after, (start_eq_ok.1 h).1]; rfl
  cells := cells_start h

theorem absorb (h : p.Brought schema m fs) (hc : f.Conforms schema)
    (hq : p.absorb f.trimmed = .ok q) : q.Brought schema m (fs ++ [f]) where
  wellFormed := h.wellFormed.absorb hc.types_trimmed hq
  metadata := (h.wellFormed.metadata_absorb hc.length_trimmed hq).trans h.metadata
  tally := by
    rw [tally_absorb h.wellFormed hc.length_trimmed hq, h.tally, h.metadata,
      hc.sizesFit.map_size_trimmed, Tally.after_snoc]
  cells := by
    rw [h.wellFormed.cells_absorb hc.length_trimmed hq, h.cells, f.map_cells_trimmed,
      delivered_snoc hc]

theorem absorb_eq_error {e : ProtocolError} (h : p.Brought schema m fs) (hc : f.Conforms schema) :
    p.absorb f.trimmed = .error e ↔ (Tally.after m fs).Refuses m f.sizes e := by
  rw [PendingMessage.absorb_eq_error h.wellFormed hc.length_trimmed, h.tally, h.metadata,
    hc.sizesFit.map_size_trimmed]

theorem isComplete_iff_full (h : p.Brought schema m fs) :
    p.isComplete = true ↔ (Tally.after m fs).Full m := by
  rw [PendingMessage.isComplete_iff_full h.wellFormed, h.tally, h.metadata]

end Brought
end PendingMessage
end

namespace Decoder

variable {d : Decoder} {m : UpdateMetadata} {fs gs : List Frame} {f : Frame} {p q : PendingMessage}
  {e : ProtocolError}

theorem step_eq (hc : f.Conforms d.schema) (hp : d.messageOf f.metadata = .ok p) :
    d.step f = match p.absorb f.trimmed with
      | .error e => ({ d with pending := none }, .error e)
      | .ok q => if q.isComplete then d.settle q else ({ d with pending := some q }, .ok none) := by
  unfold step
  rw [checkFrame_eq_ok.2 ⟨hc, rfl⟩, hp]
  dsimp only
  rw [show (Except.ok p >>= fun p => p.absorb f.trimmed) = p.absorb f.trimmed from rfl]
  cases p.absorb f.trimmed with
  | error e => rfl
  | ok q =>
    dsimp only
    split
    · cases ha : d.apply q <;> simp only [settle, ha]
    · rfl

theorem not_ofRows_of_settle (h : (d.settle p).2 = .error e) : ¬ e.OfRows := by
  unfold settle at h
  split at h
  · next e' he =>
    cases h
    exact (raises_apply d p e he).2
  · cases h

/-- After frames that were answered by nothing, the message is open and has what they bring. -/
theorem brought_of_unanswered (hidle : d.pending = none) (hpos : 0 < d.schema.size)
    (hm : m.modified.length = d.schema.size) (hfs : Announced d.schema m (fs ++ [f]))
    (hopen : ∀ a ∈ d.answers fs, a = .ok none) :
    ∃ p, (d.feed fs).messageOf f.metadata = .ok p ∧ p.Brought d.schema m fs ∧
      { d.feed fs with pending := none } = d ∧ (fs ≠ [] → p.isComplete = false) := by
  induction fs using List.reverseRecOn generalizing f with
  | nil =>
    have hstart := PendingMessage.start_eq_ok.2 ⟨hm, rfl⟩
    have hopens := messageOf_eq_ok.2 (Or.inl ⟨hidle, m, hfs.first f rfl, hstart⟩)
    refine ⟨_, hopens, .start hpos hstart, ?_, by simp⟩
    rw [feed_nil, ← hidle]
  | append_singleton fs g ih =>
    rw [answers_append] at hopen
    obtain ⟨p, hp, hbrought, hsame, _⟩ :=
      ih hfs.left fun a ha => hopen a (List.mem_append_left _ ha)
    have hg : g.Conforms (d.feed fs).schema := schema_feed d fs ▸ hfs.left.conforms_last
    have hanswer : ((d.feed fs).step g).2 = .ok none := hopen _ (by simp [answers])
    rw [feed_append, feed_cons, feed_nil]
    rw [step_eq hg hp] at hanswer ⊢
    cases hq : p.absorb g.trimmed with
    | error e => simp [hq] at hanswer
    | ok q =>
      simp only [hq] at hanswer ⊢
      split at hanswer
      · exact absurd hanswer (settle_ne_none _ _)
      · next hwaits =>
        rw [if_neg hwaits]
        have hq' := hbrought.absorb hfs.left.conforms_last hq
        refine ⟨q, ?_, hq', hsame, fun _ => by simpa using hwaits⟩
        exact messageOf_eq_ok.2 (Or.inr ⟨rfl, hfs.metadata_last (by simp)⟩)

/-- Of a message that is not answered yet some row is missing. -/
theorem not_full_of_unanswered (hidle : d.pending = none) (hpos : 0 < d.schema.size)
    (hm : m.modified.length = d.schema.size) (hfs : Announced d.schema m (fs ++ f :: gs))
    (hopen : ∀ a ∈ d.answers fs, a = .ok none) (hne : fs ≠ []) : ¬ (Tally.after m fs).Full m := by
  rw [List.append_cons] at hfs
  obtain ⟨p, _, hbrought, _, hwaits⟩ := brought_of_unanswered hidle hpos hm hfs.left hopen
  rw [← hbrought.isComplete_iff_full, hwaits hne]
  exact Bool.false_ne_true

/-- Each frame of a message, as long as none before it was refused or completed the message, is
taken by what is missing. While added rows are missing it is refused just if its columns bring
unequally many rows or more than are missing, and after that just if some column brings more
modified rows than are missing, where the first such column is named. Else its rows are those that
were missing: with the last of them the message is applied, and before that it stays open. -/
theorem step_by_tally (d : Decoder) (hidle : d.pending = none) (hpos : 0 < d.schema.size)
    (m : UpdateMetadata) (hm : m.modified.length = d.schema.size) (fs : List Frame)
    (hfs : Announced d.schema m fs) (earlier later : List Frame) (f : Frame)
    (hsplit : fs = earlier ++ f :: later) (hopen : ∀ a ∈ d.answers earlier, a = .ok none) :
    let t := Tally.after m earlier
    let t' := Tally.after m (earlier ++ [f])
    (∀ e : ProtocolError, e.OfRows →
      (((d.feed earlier).step f).2 = .error e ↔ t.Refuses m f.sizes e)) ∧
    ((∀ e, ¬ t.Refuses m f.sizes e) → ∃ p, p.Brought d.schema m (earlier ++ [f]) ∧
      (¬ t'.Full m → (d.feed earlier).step f = ({ d with pending := some p }, .ok none)) ∧
      (t'.Full m → (d.feed earlier).step f = d.settle p)) ∧
    ∀ gs, gs <+: earlier → gs ≠ [] → ¬ (Tally.after m gs).Full m := by
  intro t t'
  subst hsplit
  have hlast : Announced d.schema m (earlier ++ [f]) := by
    rw [List.append_cons] at hfs
    exact hfs.left
  have hf := hlast.conforms_last
  obtain ⟨p, hp, hbrought, hsame, _⟩ := brought_of_unanswered hidle hpos hm hlast hopen
  have hrefuses : ∀ e, p.absorb f.trimmed = .error e ↔ t.Refuses m f.sizes e :=
    fun e => hbrought.absorb_eq_error hf
  have hstep := step_eq (schema_feed d earlier ▸ hf) hp
  refine ⟨?_, ?_, ?_⟩
  · intro e he
    rw [← hrefuses, hstep]
    cases hq : p.absorb f.trimmed with
    | error e' => simp
    | ok q =>
      dsimp only
      split
      · simp only [reduceCtorEq, iff_false]
        intro h
        exact not_ofRows_of_settle h he
      · simp
  · intro htaken
    cases hq : p.absorb f.trimmed with
    | error e => exact absurd ((hrefuses e).1 hq) (htaken e)
    | ok q =>
      have hbrought' := hbrought.absorb hf hq
      refine ⟨q, hbrought', fun hmissing => ?_, fun hfull => ?_⟩
      · rw [hstep, hq]
        dsimp only
        rw [if_neg fun hc => hmissing (hbrought'.isComplete_iff_full.1 hc)]
        exact Prod.ext (congrArg (fun d : Decoder => { d with pending := some q }) hsame) rfl
      · rw [hstep, hq]
        dsimp only
        rw [if_pos (hbrought'.isComplete_iff_full.2 hfull), ← settle_pending _ none]
        exact congrArg (fun d => d.settle q) hsame
  · rintro gs ⟨rest, rfl⟩ hne
    have hopen' : ∀ a ∈ d.answers gs, a = .ok none := by
      intro a ha
      apply hopen
      rw [answers_append]
      exact List.mem_append_left _ ha
    cases rest with
    | nil =>
      rw [List.append_nil] at hfs
      exact not_full_of_unanswered hidle hpos hm hfs hopen' hne
    | cons g rest =>
      rw [List.append_assoc, List.cons_append] at hfs
      exact not_full_of_unanswered hidle hpos hm hfs hopen' hne

/-- A frame that brings two rows. -/
def crowded : Frame :=
  ⟨[⟨.int32, #[some (.int32 7), some (.int32 8)], by decide⟩], [2], none⟩

theorem announced_opening (hc : f.Conforms oneColumn) (hf : f.metadata = none) :
    Announced oneColumn makeRoom [opening, f] where
  conforms := by
    intro g hg
    rcases List.mem_pair.1 hg with rfl | rfl
    · exact ⟨rfl, rfl, by decide⟩
    · exact hc
  first := by
    intro g hg
    cases hg
    exact update?_opening
  others := by
    intro g hg
    rwa [List.mem_singleton.1 hg]

/-- A message for one row takes it and refuses two. -/
theorem step_by_tally_makeRoom :
    Announced oneColumn makeRoom [opening, filling] ∧
      Announced oneColumn makeRoom [opening, crowded] ∧
      (∃ p, p.Brought oneColumn makeRoom [opening, filling] ∧
        ((start oneColumn).feed [opening]).step filling = (start oneColumn).settle p) ∧
      (((start oneColumn).feed [opening]).step crowded).2 = .error (.tooManyRows 0 1 2) := by
  have hopen : ∀ a ∈ (start oneColumn).answers [opening], a = .ok none := by
    have : (start oneColumn).answers [opening] = [.ok none] := by cbv
    simp [this]
  have hadded : makeRoom.added.size = 1 := RowSet.size_positions 1
  have hafter : Tally.after makeRoom [opening] = ⟨0, [0]⟩ := by
    simp [Tally.after, Tally.count, Tally.zero, makeRoom, opening]
  have hfilling : Announced oneColumn makeRoom [opening, filling] :=
    announced_opening ⟨rfl, rfl, by decide⟩ rfl
  have hcrowded : Announced oneColumn makeRoom [opening, crowded] :=
    announced_opening ⟨rfl, rfl, by decide⟩ rfl
  obtain ⟨-, htaken, -⟩ := step_by_tally (start oneColumn) rfl (by decide) makeRoom rfl _ hfilling
    [opening] [] filling rfl hopen
  obtain ⟨hrefused, -, -⟩ := step_by_tally (start oneColumn) rfl (by decide) makeRoom rfl _ hcrowded
    [opening] [] crowded rfl hopen
  rw [hafter] at hrefused htaken
  rw [Tally.after_snoc, hafter] at htaken
  refine ⟨hfilling, hcrowded, ?_, ?_⟩
  · have hfits : ∀ e, ¬ Tally.Refuses makeRoom ⟨0, [0]⟩ filling.sizes e := by
      intro e he
      cases he with
      | uneven a b _ ha hb hne =>
        exact hne ((List.mem_singleton.1 ha).trans (List.mem_singleton.1 hb).symm)
      | adds n _ hn _ hover =>
        obtain rfl := List.mem_singleton.1 hn
        rw [hadded] at hover
        exact absurd hover (by decide)
      | mods c n k hnone _ =>
        rw [hadded] at hnone
        exact absurd hnone (by decide)
    obtain ⟨p, hp, -, hsettle⟩ := htaken hfits
    refine ⟨p, hp, hsettle ?_⟩
    rw [Tally.count, if_pos (by rw [hadded]; decide)]
    exact ⟨hadded.symm, rfl⟩
  · have h : Tally.Refuses makeRoom ⟨0, [0]⟩ crowded.sizes
        (.tooManyRows 0 makeRoom.added.size (0 + 2)) :=
      .adds 2 (by rw [hadded]; decide) (by decide) (by decide) (by rw [hadded]; decide)
    rw [hadded] at h
    exact (hrefused (.tooManyRows 0 1 2) trivial).2 h

end Decoder
end TickingTable
