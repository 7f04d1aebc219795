import TickingTable.Proofs.Decoder.Invariant

/-! What the frames of a message deliver, however they cut its rows. -/

namespace TickingTable

/-- The cells that frames bring for each of `n` columns, one frame after the other. -/
def delivered (n : Nat) (fs : List Frame) : List (List Cell) :=
  fs.foldr (fun f rest => List.zipWith (· ++ ·) f.cells rest) (List.replicate n [])

section

variable {n : Nat} {f : Frame} {fs gs : List Frame} {schema : Schema}

@[simp] theorem delivered_nil (n : Nat) : delivered n [] = List.replicate n [] := rfl

@[simp] theorem delivered_cons (n : Nat) (f : Frame) (fs : List Frame) :
    delivered n (f :: fs) = List.zipWith (· ++ ·) f.cells (delivered n fs) := rfl

theorem length_delivered (h : ∀ f ∈ fs, f.Conforms schema) :
    (delivered schema.size fs).length = schema.size := by
  induction fs with
  | nil => simp
  | cons f fs ih =>
    rw [delivered_cons, List.length_zipWith, ih fun g hg => h g (List.mem_cons_of_mem _ hg),
      (h f List.mem_cons_self).length_cells, Nat.min_self]

theorem delivered_append (hg : ∀ g ∈ gs, g.Conforms schema) :
    delivered schema.size (fs ++ gs) =
      List.zipWith (· ++ ·) (delivered schema.size fs) (delivered schema.size gs) := by
  induction fs with
  | nil => rw [List.nil_append, delivered_nil, zipWith_replicate_append (length_delivered hg)]
  | cons f fs ih => rw [List.cons_append, delivered_cons, ih, delivered_cons, zipWith_append_assoc]

theorem delivered_snoc (hf : f.Conforms schema) :
    delivered schema.size (fs ++ [f]) =
      List.zipWith (· ++ ·) (delivered schema.size fs) f.cells := by
  rw [delivered_append (by simpa using hf), delivered_cons, delivered_nil,
    zipWith_append_replicate hf.length_cells]

end

namespace Decoder

variable {d : Decoder} {f : Frame} {message : List Frame} {p : PendingMessage}

/-- The open message of a decoder comes from the frames `message`. -/
structure Collects (d : Decoder) (message : List Frame) : Prop where
  idle : d.pending = none → message = []
  conforms : ∀ f ∈ message, f.Conforms d.schema
  started : ∀ p, d.pending = some p → (message.head?.bind Frame.update?) = some p.metadata
  cells : ∀ p, d.pending = some p → p.cells = delivered d.schema.size message

theorem Collects.nil (h : d.pending = none) : d.Collects [] :=
  ⟨fun _ => rfl, by simp, by simp [h], by simp [h]⟩

/-- A message has the metadata of its first frame and the cells of all its frames. -/
theorem Collects.received (h : d.Orderly) (hm : d.Collects message) (hc : f.Conforms d.schema)
    (hp : d.received f = .ok p) :
    ((message ++ [f]).head?.bind Frame.update?) = some p.metadata ∧
      p.cells = delivered d.schema.size (message ++ [f]) := by
  obtain ⟨q, hq, habsorb⟩ := bind_eq_ok.1 hp
  have hwf := h.wellFormed_messageOf hq
  have hcells := hwf.cells_absorb hc.length_trimmed habsorb
  rw [f.map_cells_trimmed] at hcells
  rw [hwf.metadata_absorb hc.length_trimmed habsorb, hcells]
  rcases messageOf_eq_ok.1 hq with ⟨hidle, m, hf, hstart⟩ | ⟨hopen, _⟩
  · obtain rfl := hm.idle hidle
    rw [PendingMessage.cells_start hstart, (PendingMessage.start_eq_ok.1 hstart).2,
      zipWith_replicate_append hc.length_cells]
    refine ⟨hf, ?_⟩
    rw [List.nil_append, delivered_cons, delivered_nil, zipWith_append_replicate hc.length_cells]
  · rw [hm.cells q hopen, delivered_snoc hc]
    refine ⟨?_, rfl⟩
    have hhead := hm.started q hopen
    cases message with
    | nil => simp at hhead
    | cons g message => exact hhead

end Decoder
end TickingTable
