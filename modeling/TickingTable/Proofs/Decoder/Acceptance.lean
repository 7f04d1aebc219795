import Mathlib
import TickingTable.Proofs.Decoder.Framing

/-! Which messages are applied: those whose keys fit the keys of the table, as long as the decoder
does not panic over them. -/

namespace TickingTable
namespace Decoder

variable {schema : Schema} {d : Decoder} {p : PendingMessage} {keys : RowSet}

/-- A complete message is answered by an update just if it fits the keys of the table, and else by the
error that names the first thing in which it does not, unless the decoder panics over it. -/
theorem outcome_settleBounded (h : d.Valid) (hp : p.WellFormed d.schema)
    (hcomplete : p.isComplete = true) (hm : p.metadata.KeysBelow) :
    ((∃ u, (d.settleBounded p).2 = .ok (.ok (some u))) ↔
      p.metadata.Fits d.keys ∧ ¬ p.metadata.Crashes d.keys) ∧
    ∀ e, (d.settleBounded p).2 = .ok (.error e) ↔
      p.metadata.Misfit d.keys e ∧ ¬ p.metadata.Crashes d.keys := by
  by_cases hcrash : p.metadata.Crashes d.keys
  · obtain ⟨c, hc⟩ := (crashes_iff_settleBounded h.aligned hm).2 hcrash
    simp [hc, hcrash]
  · rw [settleBounded_of_ok ((bounds_eq_ok h.aligned hm).2 hcrash), settle]
    simp only [hcrash, not_false_eq_true, and_true, Except.ok.injEq]
    cases hr : p.metadata.refusal? d.keys with
    | none =>
      have hfits := UpdateMetadata.fits_of_refusal? h.aligned.below hr
      obtain ⟨next, u, hok, _⟩ := apply_eq_ok h.aligned hp hcomplete hr
      rw [hok]
      exact ⟨⟨fun _ => hfits, fun _ => ⟨u, rfl⟩⟩, fun e => iff_of_false (by simp) hfits.not_misfit⟩
    | some e =>
      have hmisfit := UpdateMetadata.misfit_of_refusal? h.aligned.below hr
      rw [apply_refused h.aligned hp hcomplete hr]
      refine ⟨iff_of_false (by simp) fun hfits => hfits.not_misfit hmisfit, fun e' => ⟨?_, ?_⟩⟩
      · intro he
        cases he
        exact hmisfit
      · intro he
        rw [hmisfit.unique he]

/-- The last frame of a message makes the decoder panic just if the message does so by its keys. Else
it is answered by an update just if the message fits the keys of the table, and by the error that
names the first thing in which it does not. -/
theorem last_outcome_of_carries (schema : Schema) (hs : List Frame)
    (hidle : ((start schema).runBounded hs).1.pending = none) (m : UpdateMetadata)
    (adds mods : List (List Cell)) (fs : List Frame) (hf : Carries schema m adds mods fs) :
    let d := ((start schema).runBounded hs).1
    ∃ outcome : Outcome,
      (d.runBounded fs).2 = List.replicate (fs.length - 1) (.ok (.ok none)) ++ [outcome] ∧
      ((∃ c, outcome = .error c) ↔ m.Crashes d.keys) ∧
      ((∃ u, outcome = .ok (.ok (some u))) ↔ m.Fits d.keys ∧ ¬ m.Crashes d.keys) ∧
      ∀ e, outcome = .ok (.error e) ↔ m.Misfit d.keys e ∧ ¬ m.Crashes d.keys := by
  intro d
  have h : d.Valid := (Valid.start schema).runBounded hs
  have hschema : d.schema = schema := schema_runBounded _ hs
  rw [← hschema] at hf
  obtain ⟨p, hp, hcomplete, rfl, _, _, hends⟩ := ends_of_carries hidle hf
  obtain ⟨hupdate, herror⟩ := outcome_settleBounded h hp hcomplete hf.keysBelow
  exact ⟨(d.settleBounded p).2, congrArg Prod.snd hends,
    crashes_iff_settleBounded h.aligned hf.keysBelow, hupdate, herror⟩

theorem roomy_makeRoom (hsize : keys.size < 3) (hkeys : ∀ k, k ∈ keys → k < 6) :
    makeRoom.Roomy keys := by
  have hadded : makeRoom.added.size = 1 := rfl
  refine ⟨?_, fun k hk => ?_⟩
  · rw [hadded, rowLimit, UInt64.size]
    omega
  · have hsmall : k < 6 := by
      rcases hk with hk | hk | ⟨j, hj, rfl⟩
      · exact hkeys k hk
      · have := RowSet.mem_positions.1 hk
        omega
      · have hj := hkeys j hj
        interval_cases j <;> decide
    rw [hadded, reservedKey]
    omega

/-- A row makes room for another one once, and then it is in the way itself. -/
theorem last_outcome_of_carries_makeRoom :
    Carries oneColumn makeRoom [[some (.int32 7)]] [[]] [whole] ∧
      (∃ u, (((start oneColumn).runBounded [opening, filling]).1.runBounded [whole]).2 =
        [.ok (.ok (some u))]) ∧
      (((start oneColumn).runBounded [opening, filling, opening, filling]).1.runBounded
        [whole]).2 = [.ok (.error .invalidShifts)] := by
  have hremoved : ∀ keys, makeRoom.RemovesKnown keys :=
    fun _ _ hk => absurd hk RowSet.not_mem_empty
  refine ⟨carries_whole, ?_, ?_⟩
  · have hkeys : ((start oneColumn).runBounded [opening, filling]).1.keys = .positions 1 := by cbv
    obtain ⟨outcome, houtcomes, _, hupdate, _⟩ := last_outcome_of_carries oneColumn
      [opening, filling] (by cbv) makeRoom _ _ _ carries_whole
    have hroomy : makeRoom.Roomy (.positions 1) := roomy_makeRoom (by decide) (by
      intro k hk
      have := RowSet.mem_positions.1 hk
      omega)
    obtain ⟨u, rfl⟩ := hupdate.2 (by
      rw [hkeys]
      refine ⟨⟨hremoved _, ⟨ShiftRange.wellFormed_iff.1 rfl, ?_⟩, ?_, ?_⟩, hroomy.not_crashes⟩
      · intro j k hj _ hk _ hjk
        rw [RowSet.mem_positions] at hj hk
        omega
      · rintro k hk ⟨j, hj, _, rfl⟩
        obtain rfl := Nat.lt_one_iff.1 (RowSet.mem_positions.1 hj)
        exact absurd hk (by decide)
      · intro modified hm k hk
        obtain rfl := List.mem_singleton.1 hm
        exact absurd hk RowSet.not_mem_empty)
    exact ⟨u, houtcomes⟩
  · have hkeys : ((start oneColumn).runBounded [opening, filling, opening, filling]).1.keys =
        .ofKeys [0, 5] := by cbv
    obtain ⟨outcome, houtcomes, _, _, herror⟩ := last_outcome_of_carries oneColumn
      [opening, filling, opening, filling] (by cbv) makeRoom _ _ _ carries_whole
    have hroomy : makeRoom.Roomy (.ofKeys [0, 5]) := roomy_makeRoom (by decide) (by
      have hall : ∀ k ∈ (RowSet.ofKeys [0, 5]).toList, k < 6 := by decide
      exact fun k hk => hall k (RowSet.mem_toList.2 hk))
    obtain rfl := (herror .invalidShifts).2 (by
      rw [hkeys]
      refine ⟨.shifts (hremoved _) fun hno => ?_, hroomy.not_crashes⟩
      have hlt := hno.2 0 5 (by decide) (by decide) (by decide) (by decide) (by decide)
      exact absurd hlt (by decide))
    exact houtcomes

/-- Adds more rows than memory can address to a table without columns. -/
def tooMany : UpdateMetadata := ⟨0, 0, true, .empty, [], .positions (2 ^ 60), []⟩

/-- A message fits the keys of an empty table, and the decoder panics over it: over a sum, or over the
number of rows. -/
theorem last_outcome_crashes_farApart :
    Carries oneColumn farApart [[some (.int32 7), some (.int32 6)]] [[]] [bothRows] ∧
      farApart.Fits (start oneColumn).keys ∧
      ((start oneColumn).runBounded [bothRows]).2 = [.error (.overflow ⟨1, reservedKey⟩)] ∧
      ((start .empty).runBounded [⟨[], [], some tooMany.encode⟩]).2 =
        [.error (.capacity (2 ^ 60))] := by
  have hnone : ∀ k, ¬ k ∈ (start oneColumn).keys := fun _ => RowSet.not_mem_empty
  refine ⟨carries_bothRows, ⟨?_, ⟨ShiftRange.wellFormed_iff.1 rfl, ?_⟩, ?_, ?_⟩, by cbv, by cbv⟩
  · exact fun _ hk => absurd hk RowSet.not_mem_empty
  · exact fun j _ hj => absurd hj (hnone j)
  · rintro _ _ ⟨j, hj, _⟩
    exact hnone j hj
  · intro modified hm k hk
    obtain rfl := List.mem_singleton.1 hm
    exact absurd hk RowSet.not_mem_empty

end Decoder
end TickingTable
