import Mathlib
import TickingTable.Proofs.Decoder.Run

/-! A frame that cannot be used leaves the table alone, and drops at most the message it is in. -/

namespace TickingTable
namespace Decoder

variable {d : Decoder} {f : Frame} {message : List Frame} {e : ProtocolError}

/-- Frames of a message that is not over. The first of them is accepted, and none of the others
completes or drops the message. Without frames there is no message. -/
structure Unfinished (d : Decoder) (message : List Frame) : Prop where
  idle : d.pending = none
  started : ∀ a, (d.answers message).head? = some a → a = .ok none
  continued : ∀ a ∈ d.answers message,
    a = .ok none ∨ ∃ e : ProtocolError, a = .error e ∧ e.blame = .frame

theorem unfinished_nil (h : d.pending = none) : Unfinished d [] :=
  ⟨h, by simp [answers], by simp [answers]⟩

theorem Unfinished.snoc (h : Unfinished d message)
    (hf : ((d.feed message).step f).2 = .ok none ∨ message ≠ [] ∧
      ∃ e : ProtocolError, ((d.feed message).step f).2 = .error e ∧ e.blame = .frame) :
    Unfinished d (message ++ [f]) := by
  refine ⟨h.idle, ?_, ?_⟩
  · intro a ha
    rw [answers_append, answers, answers] at ha
    cases message with
    | nil =>
      rcases hf with hf | ⟨hne, _⟩
      · have hf : (d.step f).2 = .ok none := hf
        simpa [answers, hf, eq_comm] using ha
      · exact absurd rfl hne
    | cons g message => exact h.started a ha
  · intro a ha
    rw [answers_append, answers, answers] at ha
    rcases List.mem_append.1 ha with ha | ha
    · exact h.continued a ha
    · obtain rfl := List.mem_singleton.1 ha
      exact hf.imp_right And.right

/-- Without the message in progress a decoder is what it was before that message. -/
theorem exists_unfinished (hd : d.pending = none) (fs : List Frame) :
    ∃ earlier message, fs = earlier ++ message ∧ Unfinished (d.feed earlier) message ∧
      { d.feed fs with pending := none } = d.feed earlier := by
  induction fs using List.reverseRecOn with
  | nil =>
    refine ⟨[], [], rfl, unfinished_nil hd, ?_⟩
    rw [feed_nil, ← hd]
  | append_singleton fs f ih =>
    obtain ⟨earlier, message, hfs, hopen, herased⟩ := ih
    have hstep : d.feed (fs ++ [f]) = ((d.feed fs).step f).1 := feed_append d fs [f]
    have hmessage : (d.feed earlier).feed message = d.feed fs := by rw [hfs, feed_append]
    -- After a frame that leaves no message open everything is earlier.
    have hover : (d.feed (fs ++ [f])).pending = none → ∃ earlier message,
        fs ++ [f] = earlier ++ message ∧ Unfinished (d.feed earlier) message ∧
          { d.feed (fs ++ [f]) with pending := none } = d.feed earlier := by
      intro hnone
      refine ⟨fs ++ [f], [], (List.append_nil _).symm, unfinished_nil hnone, ?_⟩
      rw [← hnone]
    have htaken := taken_step (d.feed fs) f
    rw [← hstep] at htaken
    generalize hnext : d.feed (fs ++ [f]) = next at htaken hover
    generalize hanswer : ((d.feed fs).step f).2 = answer at htaken
    cases htaken with
    | ignored e he =>
      rcases hp : (d.feed fs).pending with _ | p
      · exact hover hp
      · refine ⟨earlier, message ++ [f], by rw [hfs, List.append_assoc], ?_, herased⟩
        refine hopen.snoc (Or.inr ⟨?_, e, by rw [hmessage, hanswer], checkFrame_error he⟩)
        rintro rfl
        rw [← hmessage, feed_nil, hopen.idle] at hp
        simp at hp
    | dropped e _ _ => exact hover rfl
    | waiting p _ _ _ =>
      refine ⟨earlier, message ++ [f], by rw [hfs, List.append_assoc], ?_, herased⟩
      exact hopen.snoc (Or.inl (by rw [hmessage, hanswer]))
    | refused p e _ _ _ _ => exact hover rfl
    | completed p next u _ _ _ hu => exact hover (pending_of_apply hu).1

/-- An error is either found by the check of the frame, or it drops the message in progress. -/
theorem step_error_cases (h : (d.step f).2 = .error e) :
    (e.blame = .frame ∧ d.checkFrame f = .error e ∧ (d.step f).1 = d) ∨
      (e.blame ≠ .frame ∧ f.Conforms d.schema ∧
        (d.step f).1 = { d with pending := none }) := by
  have htaken := taken_step d f
  rw [h] at htaken
  generalize (d.step f).1 = next at htaken
  cases htaken with
  | ignored e he => exact Or.inl ⟨checkFrame_error he, he, rfl⟩
  | dropped e hc he =>
    have hmessage : e.blame = .message := blames_received d f e he
    exact Or.inr ⟨by simp [hmessage], hc, rfl⟩
  | refused p e hc _ _ he => exact Or.inr ⟨blames_apply d p e he, hc, rfl⟩

/-- A frame with an error leaves keys, table and kind alone. If the frame does not fit the schema
then everything is as if this frame had never been there, and else as if the whole message had
never been there. -/
theorem step_error (schema : Schema) (fs : List Frame) (f : Frame) (e : ProtocolError)
    (h : (((start schema).feed fs).step f).2 = .error e) :
    let before := (start schema).feed fs
    let after := (start schema).feed (fs ++ [f])
    (after.schema = before.schema ∧ after.keys = before.keys ∧ after.current = before.current ∧
      after.kind = before.kind) ∧
    (e.blame = .frame ↔ before.checkFrame f = .error e) ∧
    (e.blame = .frame → after.pending = before.pending ∧
      ∀ gs, (start schema).feed (fs ++ f :: gs) = (start schema).feed (fs ++ gs) ∧
        after.answers gs = before.answers gs) ∧
    (e.blame ≠ .frame → after.pending = none ∧
      ∃ earlier message, fs = earlier ++ message ∧
        Unfinished ((start schema).feed earlier) message ∧
        ∀ gs, (start schema).feed (fs ++ f :: gs) = (start schema).feed (earlier ++ gs) ∧
          after.answers gs = ((start schema).feed earlier).answers gs) := by
  intro before after
  have hafter : after = (before.step f).1 := feed_append _ fs [f]
  have hfeed : ∀ gs, (start schema).feed (fs ++ f :: gs) = after.feed gs := by
    intro gs
    rw [feed_append, feed_cons, hafter]
  rcases step_error_cases h with ⟨hframe, hcheck, hsame⟩ | ⟨hspares, hc, hnone⟩
  · rw [← hafter] at hsame
    refine ⟨by simp [hsame, before], ⟨fun _ => hcheck, fun _ => hframe⟩,
      fun _ => ⟨by rw [hsame], ?_⟩, ?_⟩
    · intro gs
      rw [hfeed, hsame, feed_append]
      exact ⟨rfl, rfl⟩
    · intro hspares
      exact absurd hframe hspares
  · rw [← hafter] at hnone
    obtain ⟨earlier, message, hfs, hopen, herased⟩ := @exists_unfinished (start schema) rfl fs
    have hback : after = (start schema).feed earlier := hnone.trans herased
    refine ⟨by simp [hnone, before], ⟨?_, ?_⟩, ?_,
      fun _ => ⟨by rw [hnone], earlier, message, hfs, hopen, ?_⟩⟩
    · intro hframe
      exact absurd hframe hspares
    · intro hcheck
      have hok := checkFrame_eq_ok.2 ⟨hc, rfl⟩
      rw [hcheck] at hok
      cases hok
    · intro hframe
      exact absurd hframe hspares
    · intro gs
      rw [hfeed, hback, feed_append]
      exact ⟨rfl, rfl⟩

/-- The start of a message drops a message that is open. -/
theorem step_error_unexpectedMetadata :
    (((start oneColumn).feed [opening]).step opening).2 = .error .unexpectedMetadata ∧
      ((start oneColumn).feed ([opening] ++ [opening])).pending = none := by
  have h : (((start oneColumn).feed [opening]).step opening).2 = .error .unexpectedMetadata := by
    cbv
  obtain ⟨_, _, _, hdrop⟩ := step_error oneColumn [opening] opening .unexpectedMetadata h
  exact ⟨h, (hdrop (by decide)).1⟩

end Decoder
end TickingTable
