import TickingTable.Proofs.Decoder.Crashes
import TickingTable.Proofs.Decoder.Invariant

/-! Decoders that panic: until then they run as those without a bound, and a panic changes nothing but
the message. -/

namespace TickingTable

namespace RowSet

variable {r s : RowSet}

theorem ranksFit_of_room (h : ∀ k, k ∈ r → r.size + k < reservedKey) : r.RanksFit s := by
  intro k _ o ho hlo hhi
  -- A rank is at most the size, whatever runs there are.
  have hstart : o.lo ∈ r := ⟨o, ho, Nat.le_refl _, r.canonical.1 o ho⟩
  have hrank := rank_lt_size hstart
  have hroom := h k ⟨o, ho, hlo, hhi⟩
  omega

theorem not_overflows_of_room (h : ∀ k, k ∈ r → r.size + k < reservedKey) : ¬ r.Overflows s := by
  have hr : ∀ k, k ∈ r → k < reservedKey := by
    intro k hk
    have := h k hk
    omega
  exact not_overflows hr (positionsOf_eq_ok hr (ranksFit_of_room h))

end RowSet

namespace UpdateMetadata

open Decoder

variable {m : UpdateMetadata} {keys after : RowSet}

/-- The table does not get too large, and each key that is in it, is added or is the image of one
stays below the reserved key together with as many rows as the table can get. -/
structure Roomy (m : UpdateMetadata) (keys : RowSet) : Prop where
  rows : keys.size + m.added.size < rowLimit
  keys : ∀ k, k ∈ keys ∨ k ∈ m.added ∨ (∃ j, j ∈ keys ∧ ShiftRange.moveKey m.shifts j = k) →
    keys.size + m.added.size + k < reservedKey

namespace Roomy

theorem lt_of_mem (h : m.Roomy keys) : ∀ k, k ∈ keys → k < reservedKey := by
  intro k hk
  have := h.keys k (Or.inl hk)
  omega

theorem not_overflows (h : m.Roomy keys) (hg : m.Gives keys after) (s : RowSet) :
    ¬ after.Overflows s := by
  apply RowSet.not_overflows_of_room
  intro k hk
  have hsize := hg.size_add h.lt_of_mem
  have hroom : keys.size + m.added.size + k < reservedKey := by
    rcases (hg.mem_iff k).1 hk with ⟨j, hj, _, hmove⟩ | hk
    · exact h.keys k (Or.inr (Or.inr ⟨j, hj, hmove⟩))
    · exact h.keys k (Or.inr (Or.inl hk))
  omega

/-- A message with room for all its rows and sums does not make a decoder panic. -/
theorem not_crashes (h : m.Roomy keys) : ¬ m.Crashes keys := by
  intro hc
  cases hc with
  | removed hover =>
    refine RowSet.not_overflows_of_room (fun k hk => ?_) hover
    have := h.keys k (Or.inl hk)
    omega
  | shifts k _ _ hk _ hmove =>
    have := h.keys _ (Or.inr (Or.inr ⟨k, hk, rfl⟩))
    omega
  | added after hg hover => exact h.not_overflows hg _ hover
  | rows after k hg _ hlimit =>
    have := h.rows
    have := hg.size_add h.lt_of_mem
    omega
  | modified after hg hover =>
    obtain ⟨_, modified, _, hover, _⟩ := hover
    exact h.not_overflows hg _ hover

end Roomy
end UpdateMetadata

namespace Decoder

open UpdateMetadata

variable {d next : Decoder} {f : Frame} {fs gs : List Frame} {p : PendingMessage} {c : Crash}

/-- What comes of a frame: an answer, unless the decoder panics. -/
abbrev Outcome := Except Crash Answer

theorem completed?_eq_some : d.completed? f = some p ↔
    f.Conforms d.schema ∧ d.received f = .ok p ∧ p.isComplete = true := by
  unfold completed?
  cases hcheck : d.checkFrame f with
  | error e =>
    refine iff_of_false (Option.some_ne_none p).symm ?_
    rintro ⟨hc, _⟩
    rw [checkFrame_eq_ok.2 ⟨hc, rfl⟩] at hcheck
    cases hcheck
  | ok columns =>
    obtain ⟨hc, rfl⟩ := checkFrame_eq_ok.1 hcheck
    have hreceived : (Except.ok f.trimmed >>= fun columns =>
        d.messageOf f.metadata >>= fun p => p.absorb columns) = d.received f := rfl
    rw [hreceived]
    cases d.received f with
    | error e => simp
    | ok q =>
      simp only [hc, true_and, Except.ok.injEq]
      by_cases hq : q.isComplete = true
      · rw [if_pos hq, Option.some.injEq]
        exact ⟨fun h => ⟨h, h ▸ hq⟩, fun h => h.1⟩
      · rw [if_neg hq]
        exact iff_of_false (Option.some_ne_none p).symm fun h => hq (h.1 ▸ h.2)

/-- What becomes of a frame: the decoder panics over the message that it completes, or else it takes a
step. -/
inductive TakenBounded (d : Decoder) (f : Frame) : Decoder → Outcome → Prop
  | calm : (∀ p, d.completed? f = some p → bounds d.keys p.metadata = .ok ()) →
    TakenBounded d f (d.step f).1 (.ok (d.step f).2)
  | crashed (p : PendingMessage) (c : Crash) : d.completed? f = some p →
    bounds d.keys p.metadata = .error c → TakenBounded d f { d with pending := none } (.error c)

theorem takenBounded_stepBounded (d : Decoder) (f : Frame) :
    TakenBounded d f (d.stepBounded f).1 (d.stepBounded f).2 := by
  unfold stepBounded
  cases hp : d.completed? f with
  | none => exact .calm (by simp [hp])
  | some p =>
    dsimp only [Option.elim]
    cases hb : bounds d.keys p.metadata with
    | error c => exact .crashed p c hp hb
    | ok _ => exact .calm (by simpa [hp] using hb)

/-- The end of a complete message, which is applied unless the decoder panics. -/
def settleBounded (d : Decoder) (p : PendingMessage) : Decoder × Outcome :=
  match bounds d.keys p.metadata with
  | .error c => ({ d with pending := none }, .error c)
  | .ok () => ((d.settle p).1, .ok (d.settle p).2)

theorem step_of_completed (h : d.completed? f = some p) : d.step f = d.settle p := by
  obtain ⟨hc, hp, hcomplete⟩ := completed?_eq_some.1 h
  unfold step
  rw [checkFrame_eq_ok.2 ⟨hc, rfl⟩]
  dsimp only
  rw [show d.messageOf f.metadata >>= (fun p => p.absorb f.trimmed) = .ok p from hp]
  dsimp only
  rw [if_pos hcomplete]
  unfold settle
  cases d.apply p <;> rfl

theorem stepBounded_of_completed (h : d.completed? f = some p) :
    d.stepBounded f = d.settleBounded p := by
  rw [stepBounded, h, settleBounded, step_of_completed h]
  rfl

theorem stepBounded_of_waiting (hc : f.Conforms d.schema) (hp : d.received f = .ok p)
    (hwaits : p.isComplete = false) :
    d.stepBounded f = ({ d with pending := some p }, .ok (.ok none)) := by
  have hnone : d.completed? f = none := by
    rw [Option.eq_none_iff_forall_ne_some]
    intro q hq
    obtain ⟨_, hq, hcomplete⟩ := completed?_eq_some.1 hq
    cases hp.symm.trans hq
    rw [hwaits] at hcomplete
    cases hcomplete
  have hstep : d.step f = ({ d with pending := some p }, .ok none) := by
    unfold step
    rw [checkFrame_eq_ok.2 ⟨hc, rfl⟩]
    dsimp only
    rw [show d.messageOf f.metadata >>= (fun p => p.absorb f.trimmed) = .ok p from hp]
    dsimp only
    rw [if_neg (by simp [hwaits])]
  rw [stepBounded, hnone, hstep]
  rfl

theorem settleBounded_of_ok (h : bounds d.keys p.metadata = .ok ()) :
    d.settleBounded p = ((d.settle p).1, .ok (d.settle p).2) := by
  rw [settleBounded, h]

theorem settleBounded_ne_none (d : Decoder) (p : PendingMessage) :
    (d.settleBounded p).2 ≠ .ok (.ok none) := by
  unfold settleBounded
  split
  · nofun
  · exact fun h => settle_ne_none d p (Except.ok.inj h)

/-- No message is open after one was applied or made the decoder panic. -/
theorem pending_settleBounded (d : Decoder) (p : PendingMessage) :
    (d.settleBounded p).1.pending = none := by
  unfold settleBounded settle
  split
  · rfl
  · split
    · rfl
    · next hok => exact (pending_of_apply hok).1

theorem crashes_iff_settleBounded (ha : d.Aligned) (hm : p.metadata.KeysBelow) :
    (∃ c, (d.settleBounded p).2 = .error c) ↔ p.metadata.Crashes d.keys := by
  rw [← exists_bounds_eq_error ha.below (hm p.metadata.added (Or.inr (Or.inl rfl))), settleBounded]
  cases bounds d.keys p.metadata with
  | error c => exact iff_of_true ⟨c, rfl⟩ ⟨c, rfl⟩
  | ok _ => exact iff_of_false nofun nofun

theorem bounds_eq_ok (ha : d.Aligned) (hm : p.metadata.KeysBelow) :
    bounds d.keys p.metadata = .ok () ↔ ¬ p.metadata.Crashes d.keys := by
  rw [← exists_bounds_eq_error ha.below (hm p.metadata.added (Or.inr (Or.inl rfl)))]
  cases bounds d.keys p.metadata with
  | error c => exact iff_of_false nofun fun h => h ⟨c, rfl⟩
  | ok _ => exact iff_of_true rfl nofun

/-- Keys and rows go together and memory has room for them, and an open message waits for rows. -/
structure Valid (d : Decoder) : Prop where
  aligned : d.Aligned
  pending : ∀ p, d.pending = some p →
    p.isComplete = false ∧ p.WellFormed d.schema ∧ p.metadata.KeysBelow
  room : d.keys.size < rowLimit

namespace Valid

theorem start (schema : Schema) : (start schema).Valid :=
  ⟨(Invariant.start schema).aligned, by simp [Decoder.start], (by decide : 0 < rowLimit)⟩

theorem orderly (h : d.Valid) : d.Orderly := fun p hp => (h.pending p hp).2.1

theorem keysBelow_received (h : d.Valid) (hc : f.Conforms d.schema) (hp : d.received f = .ok p) :
    p.metadata.KeysBelow := by
  rcases h.orderly.metadata_received hc hp with ⟨_, hm⟩ | ⟨q, hopen, hq⟩
  · exact Frame.keysBelow_of_update? hm
  · exact hq ▸ (h.pending q hopen).2.2

theorem dropped (h : d.Valid) : { d with pending := none }.Valid :=
  ⟨⟨h.aligned.schema, h.aligned.rows, h.aligned.below⟩, by simp, h.room⟩

/-- A message that does not make a decoder panic leaves it with keys that have room, below the
reserved key. -/
theorem applied {u : Update} (h : d.Valid) (hwf : p.WellFormed d.schema)
    (hcomplete : p.isComplete = true) (hm : p.metadata.KeysBelow)
    (hcalm : ¬ p.metadata.Crashes d.keys) (hu : d.apply p = .ok (next, u)) : next.Valid := by
  have happlied := (applied_of_apply h.aligned hwf hcomplete hu).2
  obtain ⟨shifted, hshift, hnew, hkeys⟩ := happlied.keys
  have hremoved := (RowSet.positionsOf?_eq_some happlied.removed).1
  have hgives := gives_of_shifted h.aligned.below hremoved hshift hnew
  rw [← hkeys] at hgives
  have hadded := hm p.metadata.added (Or.inr (Or.inl rfl))
  refine ⟨happlied.aligned_of_below h.aligned ?_, by simp [(pending_of_apply hu).1], ?_⟩
  · exact fun k => hgives.lt_of_mem h.aligned.below hadded hcalm
  · exact hgives.size_lt h.aligned.below h.room hcalm

theorem step (h : d.Valid)
    (hcalm : ∀ p, d.completed? f = some p → ¬ p.metadata.Crashes d.keys) : (d.step f).1.Valid := by
  have htaken := taken_step d f
  generalize (d.step f).1 = next, (d.step f).2 = answer at htaken
  cases htaken with
  | ignored e _ => exact h
  | dropped e _ _ => exact h.dropped
  | waiting p hc hp hwaits =>
    refine ⟨⟨h.aligned.schema, h.aligned.rows, h.aligned.below⟩, ?_, h.room⟩
    intro q hq
    cases hq
    exact ⟨hwaits, h.orderly.wellFormed_received hc hp, h.keysBelow_received hc hp⟩
  | refused p e _ _ _ _ => exact h.dropped
  | completed p next u hc hp hcomplete hu =>
    exact h.applied (h.orderly.wellFormed_received hc hp) hcomplete (h.keysBelow_received hc hp)
      (hcalm p (completed?_eq_some.2 ⟨hc, hp, hcomplete⟩)) hu

theorem stepBounded (h : d.Valid) (f : Frame) : (d.stepBounded f).1.Valid := by
  have htaken := takenBounded_stepBounded d f
  generalize (d.stepBounded f).1 = next, (d.stepBounded f).2 = outcome at htaken
  cases htaken with
  | calm hok =>
    refine h.step fun p hp => ?_
    obtain ⟨hc, hreceived, _⟩ := completed?_eq_some.1 hp
    exact (bounds_eq_ok h.aligned (h.keysBelow_received hc hreceived)).1 (hok p hp)
  | crashed p c _ _ => exact h.dropped

end Valid

/-- The decoder after some frames, and what came of them. -/
def runBounded : Decoder → List Frame → Decoder × List Outcome
  | d, [] => (d, [])
  | d, f :: fs =>
    let (next, outcome) := d.stepBounded f
    let (last, outcomes) := runBounded next fs
    (last, outcome :: outcomes)

theorem runBounded_cons : d.runBounded (f :: fs) =
    (((d.stepBounded f).1.runBounded fs).1,
      (d.stepBounded f).2 :: ((d.stepBounded f).1.runBounded fs).2) := rfl

theorem runBounded_append : d.runBounded (fs ++ gs) =
    (((d.runBounded fs).1.runBounded gs).1,
      (d.runBounded fs).2 ++ ((d.runBounded fs).1.runBounded gs).2) := by
  induction fs generalizing d with
  | nil => rfl
  | cons f fs ih => rw [List.cons_append, runBounded_cons, ih, runBounded_cons]; rfl

theorem Valid.runBounded (h : d.Valid) (fs : List Frame) : (d.runBounded fs).1.Valid := by
  induction fs generalizing d with
  | nil => exact h
  | cons f fs ih => exact ih (h.stepBounded f)

theorem schema_runBounded (d : Decoder) (fs : List Frame) :
    (d.runBounded fs).1.schema = d.schema := by
  induction fs generalizing d with
  | nil => rfl
  | cons f fs ih =>
    have htaken := takenBounded_stepBounded d f
    have hnext : (d.stepBounded f).1.schema = d.schema := by
      generalize (d.stepBounded f).1 = next, (d.stepBounded f).2 = outcome at htaken
      cases htaken with
      | calm _ => exact schema_step d f
      | crashed p c _ _ => rfl
    exact (ih _).trans hnext

/-- A run without a panic is one without a bound. -/
theorem runBounded_eq (h : ∀ outcome ∈ (d.runBounded fs).2, ∃ answer, outcome = .ok answer) :
    d.runBounded fs = (d.feed fs, (d.answers fs).map .ok) := by
  induction fs generalizing d with
  | nil => rfl
  | cons f fs ih =>
    rw [runBounded_cons] at h ⊢
    obtain ⟨⟨answer, hanswer⟩, hrest⟩ := List.forall_mem_cons.1 h
    have htaken := takenBounded_stepBounded d f
    generalize (d.stepBounded f).1 = next, (d.stepBounded f).2 = outcome at *
    cases htaken with
    | calm _ => rw [ih hrest, feed_cons, answers]; rfl
    | crashed p c _ _ => cases hanswer

end Decoder
end TickingTable
