import TickingTable.Proofs.Decoder.Errors

/-! Decoders that take one frame after the other. -/

namespace TickingTable

namespace Decoder

variable {d next : Decoder} {f : Frame} {fs gs : List Frame}

/-- The answer to a frame. -/
abbrev Answer := Except ProtocolError (Option Update)

/-- The decoder after some frames. -/
def feed (d : Decoder) (fs : List Frame) : Decoder := fs.foldl (fun d f => (d.step f).1) d

/-- The answers to some frames, one after the other. -/
def answers : Decoder → List Frame → List Answer
  | _, [] => []
  | d, f :: fs => (d.step f).2 :: answers (d.step f).1 fs

/-- No message that some frame starts shifts a key of the table exactly onto the reserved key. -/
def ShiftsBelow : Decoder → List Frame → Prop
  | _, [] => True
  | d, f :: fs =>
    (∀ m, f.update? = some m → (d.keys.difference m.removed).ShiftsBelow m.shifts) ∧
      ShiftsBelow (d.step f).1 fs

@[simp] theorem feed_nil (d : Decoder) : d.feed [] = d := rfl

@[simp] theorem feed_cons (d : Decoder) (f : Frame) (fs : List Frame) :
    d.feed (f :: fs) = (d.step f).1.feed fs := rfl

@[simp] theorem feed_append (d : Decoder) (fs gs : List Frame) :
    d.feed (fs ++ gs) = (d.feed fs).feed gs := List.foldl_append

theorem answers_append (d : Decoder) (fs gs : List Frame) :
    d.answers (fs ++ gs) = d.answers fs ++ (d.feed fs).answers gs := by
  induction fs generalizing d with
  | nil => rfl
  | cons f fs ih => simp only [List.cons_append, answers, ih, feed_cons]

/-- It is enough that the images of all ranges end below the reserved key. -/
theorem shiftsBelow_of_forall (h : ∀ f ∈ fs, ∀ m, f.update? = some m →
    ∀ s ∈ m.shifts, s.dest + (s.last - s.first) < reservedKey) : d.ShiftsBelow fs := by
  induction fs generalizing d with
  | nil => trivial
  | cons f fs ih =>
    refine ⟨?_, ih fun g hg => h g (List.mem_cons_of_mem _ hg)⟩
    intro m hm k _ s hs _ hk
    have := h f List.mem_cons_self m hm s hs
    omega

/-- The message that a frame belongs to, with the rows that the frame brings. -/
def received (d : Decoder) (f : Frame) : Except ProtocolError PendingMessage :=
  d.messageOf f.metadata >>= fun p => p.absorb f.trimmed

/-- What becomes of a frame. -/
inductive Taken (d : Decoder) (f : Frame) : Decoder → Answer → Prop
  | ignored (e : ProtocolError) : d.checkFrame f = .error e → Taken d f d (.error e)
  | dropped (e : ProtocolError) : f.Conforms d.schema → d.received f = .error e →
    Taken d f { d with pending := none } (.error e)
  | waiting (p : PendingMessage) : f.Conforms d.schema → d.received f = .ok p →
    p.isComplete = false → Taken d f { d with pending := some p } (.ok none)
  | refused (p : PendingMessage) (e : ProtocolError) : f.Conforms d.schema →
    d.received f = .ok p → p.isComplete = true → d.apply p = .error e →
    Taken d f { d with pending := none } (.error e)
  | completed (p : PendingMessage) (next : Decoder) (u : Update) : f.Conforms d.schema →
    d.received f = .ok p → p.isComplete = true → d.apply p = .ok (next, u) →
    Taken d f next (.ok (some u))

theorem taken_step (d : Decoder) (f : Frame) : Taken d f (d.step f).1 (d.step f).2 := by
  unfold step
  split
  · next e he => exact .ignored e he
  · next columns hcolumns =>
    obtain ⟨hc, rfl⟩ := checkFrame_eq_ok.1 hcolumns
    dsimp only
    split
    · next e he => exact .dropped e hc he
    · next p hp =>
      split
      · next hcomplete =>
        split
        · next e he => exact .refused p e hc hp hcomplete he
        · next next u hu => exact .completed p next u hc hp hcomplete hu
      · next hwaits => exact .waiting p hc hp (Bool.not_eq_true _ ▸ hwaits)

/-- The end of a complete message, which is applied. -/
def settle (d : Decoder) (p : PendingMessage) : Decoder × Answer :=
  match d.apply p with
  | .error e => ({ d with pending := none }, .error e)
  | .ok (next, update) => (next, .ok (some update))

theorem settle_pending (d : Decoder) (o : Option PendingMessage) (p : PendingMessage) :
    { d with pending := o }.settle p = d.settle p := rfl

theorem settle_ne_none (d : Decoder) (p : PendingMessage) : (d.settle p).2 ≠ .ok none := by
  unfold settle
  split <;> simp

theorem blames_received (d : Decoder) (f : Frame) : Blames (· = .message) (d.received f) :=
  .bind (blames_messageOf _ _) fun _ => PendingMessage.blames_absorb _ _

/-- What a decoder becomes and what its update says of that, whichever message is applied. -/
structure Emits (d : Decoder) (p : PendingMessage) (next : Decoder) (u : Update) : Prop where
  rest : next = { d with kind := .delta, keys := next.keys, current := u.current, pending := none }
  header : u.kind = d.kind ∧ u.firstSeq = p.metadata.firstSeq ∧ u.lastSeq = p.metadata.lastSeq ∧
    u.prev = d.current

theorem emits_of_finish {p : PendingMessage} {keys removed added : RowSet}
    {removal addition : Revision} {u : Update}
    (h : d.finish p keys removed removal added addition = .ok (next, u)) : Emits d p next u := by
  obtain ⟨changes, _, h⟩ := bind_eq_ok.1 h
  obtain ⟨modification, _, h⟩ := bind_eq_ok.1 h
  cases h
  exact ⟨rfl, rfl, rfl, rfl, rfl⟩

theorem emits_of_apply {p : PendingMessage} {u : Update} (h : d.apply p = .ok (next, u)) :
    Emits d p next u := by
  rw [apply_eq] at h
  dsimp only at h
  split at h
  · obtain ⟨removal, _, h⟩ := bind_eq_ok.1 h
    split at h
    · split at h
      · cases h
      · split at h
        · obtain ⟨addition, _, h⟩ := bind_eq_ok.1 h
          exact emits_of_finish h
        · cases h
    · cases h
  · cases h

/-- No message is open after one was applied. -/
theorem pending_of_apply {p : PendingMessage} {u : Update} (h : d.apply p = .ok (next, u)) :
    next.pending = none ∧ next.schema = d.schema := by
  rw [(emits_of_apply h).rest]
  exact ⟨rfl, rfl⟩

/-- A schema for small examples. -/
def oneColumn : Schema :=
  ⟨["x"], [.int32], (∅ : Std.HashMap String Nat).insert "x" 0, rfl, by simp [Schema.fillIndex]⟩

/-- Moves key 0 to key 5 and adds a row with key 0. -/
def makeRoom : UpdateMetadata := ⟨0, 0, false, .empty, [⟨0, 0, 5⟩], .positions 1, [.empty]⟩

/-- Adds rows with the first key and the last one that rows can have. -/
def farApart : UpdateMetadata :=
  ⟨0, 0, true, .empty, [], .ofKeys [0, reservedKey - 1], [.empty]⟩

/-- A frame that starts a message and brings no row. -/
def opening : Frame := ⟨[.empty .int32], [0], some makeRoom.encode⟩

/-- A frame that brings a row. -/
def filling : Frame := ⟨[⟨.int32, #[some (.int32 7)], by decide⟩], [1], none⟩

theorem update?_opening : opening.update? = some makeRoom := rfl

theorem update?_filling : filling.update? = none := rfl

theorem shiftsBelow_of_makeRoom (h : ∀ f ∈ fs, f = opening ∨ f = filling) : d.ShiftsBelow fs := by
  apply shiftsBelow_of_forall
  intro f hf m hm s hs
  rcases h f hf with rfl | rfl
  · rw [update?_opening] at hm
    cases hm
    obtain rfl := List.mem_singleton.1 hs
    decide
  · rw [update?_filling] at hm
    cases hm

end Decoder
end TickingTable
