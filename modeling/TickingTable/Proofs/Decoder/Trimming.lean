import Mathlib.Data.List.Forall2
import TickingTable.Proofs.Decoder.Bounded

/-! Rows of a frame that its sizes leave out make no difference, then or later. -/

namespace TickingTable

namespace Column

variable {c d : Column} {n : Nat}

theorem trim_congr (ht : c.type = d.type)
    (hc : c.cells.toList.take n = d.cells.toList.take n) : c.trim n = d.trim n := by
  apply ext_cells
  · simpa using ht
  · simpa using hc

/-- Columns whose first `n` cells are the same have all these cells, or no other cells. -/
theorem size_eq_or_le (hc : c.cells.toList.take n = d.cells.toList.take n) :
    c.size = d.size ∨ n ≤ c.size ∧ n ≤ d.size := by
  have hlength := congrArg List.length hc
  rw [List.length_take, List.length_take, length_cells, length_cells] at hlength
  omega

end Column

namespace Frame

variable {f g : Frame}

/-- The frame without the rows that its sizes leave out. -/
def cut (f : Frame) : Frame := ⟨f.trimmed, f.trimmed.map Column.size, f.metadata⟩

/-- The frames differ in nothing but rows that their sizes leave out. -/
structure Alike (f g : Frame) : Prop where
  types : f.columns.map Column.type = g.columns.map Column.type
  sizes : f.sizes = g.sizes
  cells : f.cells = g.cells
  metadata : f.metadata = g.metadata

theorem Alike.refl (f : Frame) : f.Alike f := ⟨rfl, rfl, rfl, rfl⟩

theorem cells_cut (f : Frame) : f.cut.cells = f.cells := by
  rw [cells, cut, ← map_cells_trimmed]
  dsimp only
  rw [List.zipWith_map_right, List.zipWith_self]
  apply List.map_congr_left
  intro c _
  rw [List.take_of_length_le (Nat.le_of_eq (Column.length_cells c))]

theorem SizesFit.alike_cut (h : f.SizesFit) : f.Alike f.cut where
  types := h.map_type_trimmed.symm
  sizes := h.map_size_trimmed.symm
  cells := f.cells_cut.symm
  metadata := rfl

end Frame

namespace Decoder

variable {d : Decoder} {f g : Frame} {fs gs : List Frame} {columns others : List Column}
  {sizes : List Nat}

theorem trimColumns_congr (index : Nat) (types : List ElementType)
    (ht : columns.map Column.type = others.map Column.type)
    (hc : List.zipWith (fun c n => c.cells.toList.take n) columns sizes =
      List.zipWith (fun c n => c.cells.toList.take n) others sizes) :
    trimColumns index columns sizes types = trimColumns index others sizes types := by
  induction columns generalizing others sizes types index with
  | nil =>
    obtain rfl : others = [] := by simpa using ht.symm
    rfl
  | cons c columns ih =>
    cases others with
    | nil => cases ht
    | cons c' others =>
      cases sizes with
      | nil => cases types <;> rfl
      | cons n sizes =>
        cases types with
        | nil => rfl
        | cons type types =>
          obtain ⟨htype, ht⟩ := List.cons.inj ht
          obtain ⟨hcell, hc⟩ := List.cons.inj hc
          rw [trimColumns_cons, trimColumns_cons, htype, Column.trim_congr htype hcell,
            ih (index + 1) types ht hc]
          rcases Column.size_eq_or_le hcell with hsize | ⟨hle, hle'⟩
          · rw [hsize]
          · rw [if_neg (Nat.not_lt.2 hle), if_neg (Nat.not_lt.2 hle')]

theorem checkFrame_congr (h : f.Alike g) : d.checkFrame f = d.checkFrame g := by
  have hlength : f.columns.length = g.columns.length := by
    simpa using congrArg List.length h.types
  have hcells := h.cells
  rw [Frame.cells, Frame.cells, h.sizes] at hcells
  rw [checkFrame, checkFrame, hlength, h.sizes, trimColumns_congr 0 d.schema.types h.types hcells]

theorem step_congr (h : f.Alike g) : d.step f = d.step g := by
  rw [step, step, checkFrame_congr h, h.metadata]

theorem stepBounded_congr (h : f.Alike g) : d.stepBounded f = d.stepBounded g := by
  have hcompleted : d.completed? f = d.completed? g := by
    rw [completed?, completed?, checkFrame_congr h, h.metadata]
  rw [stepBounded, stepBounded, hcompleted, step_congr h]

/-- Streams that are alike frame by frame are taken alike up to their ends. -/
theorem run_congr (h : List.Forall₂ Frame.Alike fs gs) (d : Decoder) :
    d.feed fs = d.feed gs ∧ d.answers fs = d.answers gs ∧ d.runBounded fs = d.runBounded gs := by
  induction h generalizing d with
  | nil => exact ⟨rfl, rfl, rfl⟩
  | @cons f g fs gs hfg _ ih =>
    obtain ⟨hfeed, hanswers, _⟩ := ih (d.step g).1
    refine ⟨?_, ?_, ?_⟩
    · rw [feed_cons, feed_cons, step_congr hfg, hfeed]
    · rw [answers, answers, step_congr hfg, hanswers]
    · rw [runBounded, runBounded, stepBounded_congr hfg]
      rcases d.stepBounded g with ⟨next, answer⟩
      obtain ⟨_, _, hbounded⟩ := ih next
      dsimp only
      rw [hbounded]

/-- Whatever state a decoder is in, a frame does the same as the frame cut to its sizes, and frames
that differ only in rows beyond their sizes cannot be told apart by any answer, nor by the answers
to the frames after them. -/
theorem reads_within_sizes (d : Decoder) :
    (∀ f : Frame, f.SizesFit →
      d.step f = d.step f.cut ∧ d.stepBounded f = d.stepBounded f.cut) ∧
    ∀ fs gs : List Frame, List.Forall₂ Frame.Alike fs gs →
      d.feed fs = d.feed gs ∧ d.answers fs = d.answers gs ∧
        d.runBounded fs = d.runBounded gs := by
  refine ⟨?_, fun fs gs h => run_congr h d⟩
  intro f hf
  have hcut := hf.alike_cut
  exact ⟨step_congr hcut, stepBounded_congr hcut⟩

/-- A frame with a row more than it brings. -/
def overfull : Frame := ⟨[⟨.int32, #[some (.int32 7), none], by decide⟩], [1], none⟩

/-- The row that is left out shows in no answer, nor does it count for the frame that follows. -/
theorem reads_within_sizes_overfull :
    overfull.SizesFit ∧ overfull.cut = filling ∧ overfull.Alike filling ∧
      ((start oneColumn).feed [opening]).step overfull =
        ((start oneColumn).feed [opening]).step filling ∧
      (start oneColumn).answers [opening, overfull, opening] =
        (start oneColumn).answers [opening, filling, opening] := by
  have hfit : overfull.SizesFit := .cons (by decide) .nil
  have hcut : overfull.cut = filling := rfl
  have halike : overfull.Alike filling := ⟨rfl, rfl, rfl, rfl⟩
  obtain ⟨hstep, _⟩ := (reads_within_sizes ((start oneColumn).feed [opening])).1 overfull hfit
  obtain ⟨_, hanswers, _⟩ := (reads_within_sizes (start oneColumn)).2 [opening, overfull, opening]
    [opening, filling, opening] (.cons (.refl _) (.cons halike (.cons (.refl _) .nil)))
  exact ⟨hfit, hcut, halike, hcut ▸ hstep, hanswers⟩

end Decoder
end TickingTable
