import TickingTable.Proofs.Decoder.Positions

/-! The updates of a run follow one another: each starts with the table that the one before it has
left. -/

namespace TickingTable
namespace Decoder

variable {d : Decoder} {f : Frame} {fs : List Frame} {us : List Update} {u : Update}
  {schema : Schema}

/-- A later update takes up where an earlier one ends. -/
def Continues (u v : Update) : Prop := v.kind = .delta ∧ v.prev = u.current

/-- The updates so far are linked, and what the decoder retains is the end of the last one. -/
structure Chained (schema : Schema) (us : List Update) (d : Decoder) : Prop where
  first : ∀ u, us.head? = some u → u.kind = .snapshot ∧ u.prev = .empty schema
  linked : us.IsChain Continues
  kind : d.kind = if us = [] then .snapshot else .delta
  current : d.current = (us.getLast?.map Update.current).getD (.empty schema)

theorem Chained.start (schema : Schema) : Chained schema [] (start schema) :=
  ⟨nofun, .nil, rfl, rfl⟩

@[simp] theorem updates_append (as bs : List Answer) :
    updates (as ++ bs) = updates as ++ updates bs := List.filterMap_append

/-- A new update is linked to the last one by what the decoder has retained of that. -/
theorem Chained.snoc {next : Decoder} {p : PendingMessage} (h : Chained schema us d)
    (hu : Emits d p next u) : Chained schema (us ++ [u]) next := by
  obtain ⟨hkind, _, _, hprev⟩ := hu.header
  refine ⟨?_, ?_, ?_, ?_⟩
  · intro v hv
    cases us with
    | nil =>
      cases hv
      rw [hkind, hprev, h.kind, h.current]
      exact ⟨rfl, rfl⟩
    | cons w us => exact h.first v hv
  · refine List.isChain_append.2 ⟨h.linked, .singleton u, ?_⟩
    intro v hv w hw
    cases hw
    rw [Option.mem_def] at hv
    have hne : us ≠ [] := by
      rintro rfl
      cases hv
    refine ⟨?_, ?_⟩
    · rw [hkind, h.kind, if_neg hne]
    · rw [hprev, h.current, hv]
      rfl
  · rw [hu.rest]
    simp
  · rw [hu.rest]
    simp

theorem Chained.step (h : Chained schema us d) (f : Frame) :
    Chained schema (us ++ updates [(d.step f).2]) (d.step f).1 := by
  have htaken := taken_step d f
  generalize (d.step f).1 = next, (d.step f).2 = answer at htaken ⊢
  cases htaken with
  | completed p next u _ _ _ hu => exact h.snoc (emits_of_apply hu)
  | _ =>
    -- without an update the decoder keeps kind and table
    rw [updates, List.filterMap_cons_none rfl, List.filterMap_nil, List.append_nil]
    exact ⟨h.first, h.linked, h.kind, h.current⟩

theorem Chained.feed (h : Chained schema us d) (fs : List Frame) :
    Chained schema (us ++ updates (d.answers fs)) (d.feed fs) := by
  induction fs generalizing d us with
  | nil =>
    rw [answers, updates, List.filterMap_nil, List.append_nil]
    exact h
  | cons f fs ih =>
    have hrest := ih (h.step f)
    rw [List.append_assoc, ← updates_append] at hrest
    exact hrest

/-- An update has the sequence numbers of the frame that starts its message. -/
theorem seq_of_step {message : List Frame} (h : d.Orderly) (hm : d.Collects message)
    (hu : (d.step f).2 = .ok (some u)) :
    ∃ m, (message ++ [f]).head?.bind Frame.update? = some m ∧
      u.firstSeq = m.firstSeq ∧ u.lastSeq = m.lastSeq := by
  have htaken := taken_step d f
  rw [hu] at htaken
  generalize (d.step f).1 = next at htaken
  cases htaken with
  | completed p next u hc hp _ happly =>
    obtain ⟨_, hfirst, hlast, _⟩ := (emits_of_apply happly).header
    exact ⟨p.metadata, (hm.received h hc hp).1, hfirst, hlast⟩

theorem Orderly.feed (h : d.Orderly) (fs : List Frame) : (d.feed fs).Orderly := by
  induction fs generalizing d with
  | nil => exact h
  | cons f fs ih => exact ih (h.step f)

/-- Whatever frames come, also such that are refused: the first update is a snapshot and starts with
no rows, each later one is a delta and starts with the table that the one before it has left, the
current table is the one that the last update has left, and each update has the sequence numbers of
the frame that starts its message. -/
theorem updates_linked (schema : Schema) (fs : List Frame) :
    let us := updates ((start schema).answers fs)
    (∀ u, us.head? = some u → u.kind = .snapshot ∧ u.prev = .empty schema) ∧
    us.IsChain Continues ∧
    ((start schema).feed fs).current = (us.getLast?.map Update.current).getD (.empty schema) ∧
    (∀ earlier f later u, fs = earlier ++ f :: later →
      (((start schema).feed earlier).step f).2 = .ok (some u) →
      ∃ m, (openFrames (earlier.zip ((start schema).answers earlier)) ++ [f]).head?.bind
        Frame.update? = some m ∧ u.firstSeq = m.firstSeq ∧ u.lastSeq = m.lastSeq) := by
  intro us
  have hchained : Chained schema us ((start schema).feed fs) := (Chained.start schema).feed fs
  refine ⟨hchained.first, hchained.linked, hchained.current, ?_⟩
  intro earlier f later u _ hu
  have hidle : (start schema).Orderly := .of_pending_eq_none rfl
  have hm : (start schema).Collects [] := .nil rfl
  exact seq_of_step (hidle.feed earlier) (hm.feed hidle earlier) hu

end Decoder
end TickingTable
