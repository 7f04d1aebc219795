import TickingTable.Proofs.Wire.Metadata

/-! A message can be read before it is known what follows it, and no part of it is enough. -/

namespace TickingTable

namespace Wire

/-- Fewer bytes are left than are needed. -/
inductive Error.IsShortage : Error → Prop
  | intro {requested available : Nat} : available < requested →
    IsShortage (.truncated requested available)

/-- What a reader makes of some bytes, and what it makes of them when `more` follows. -/
inductive Extends {α : Type} (more : List UInt8) :
    Except Error (α × List UInt8) → Except Error (α × List UInt8) → Prop
  | ok (a : α) (rest : List UInt8) : Extends more (.ok (a, rest)) (.ok (a, rest ++ more))
  | error (e : Error) : Extends more (.error e) (.error e)
  | shortage (e : Error) (outcome : Except Error (α × List UInt8)) : e.IsShortage →
    Extends more (.error e) outcome

/-- Of a message `fewer` bytes from its front are too few, and with bytes after it there are too
many. -/
structure Whole {α : Type} (decode : List UInt8 → Except Error α) (b : List UInt8) : Prop where
  truncated : ∀ fewer, fewer <+: b → fewer ≠ b → ∃ requested available, available < requested ∧
    decode fewer = .error (.truncated requested available)
  trailing : ∀ more, more ≠ [] → decode (b ++ more) = .error (.trailingBytes more.length)

namespace Extends

variable {α : Type} {more rest : List UInt8} {outcome : Except Error (α × List UInt8)} {a : α}

theorem of_ok (h : Extends more (.ok (a, rest)) outcome) : outcome = .ok (a, rest ++ more) := by
  cases h
  rfl

/-- Where `more` is read to its end, its bytes are missed when they are not there. -/
theorem isShortage (h : Extends more outcome (.ok (a, []))) (hne : more ≠ []) :
    ∃ e, outcome = .error e ∧ e.IsShortage := by
  generalize hwhole : Except.ok (a, []) = whole at h
  cases h with
  | ok a' rest =>
    obtain ⟨_, hnil⟩ := Prod.mk.inj (Except.ok.inj hwhole)
    exact absurd (List.append_eq_nil_iff.1 hnil.symm).2 hne
  | error e => cases hwhole
  | shortage e _ he => exact ⟨e, rfl, he⟩

end Extends

namespace Reader

/-- Bytes that follow change nothing, unless a reader has run out of bytes without them. -/
def Incremental {α : Type} (reader : Reader α) : Prop :=
  ∀ input more, Extends more (reader input) (reader (input ++ more))

variable {α β : Type} {reader : Reader α} {next : α → Reader β} {input more rest : List UInt8}
  {a : α} {e : Error} {n : Nat}

namespace Incremental

theorem pure (a : α) : Incremental (Pure.pure a) := fun input _ => .ok a input

theorem throw (e : Error) : Incremental (MonadExcept.throw e : Reader α) := fun _ _ => .error e

theorem bind (h : Incremental reader) (hnext : ∀ a, Incremental (next a)) :
    Incremental (reader >>= next) := by
  intro input more
  have hread := h input more
  simp only [Bind.bind, StateT.bind, Except.bind]
  generalize reader input = outcome, reader (input ++ more) = outcome' at hread
  cases hread with
  | ok a rest => exact hnext a rest more
  | error e => exact .error e
  | shortage e _ he => exact .shortage e _ he

theorem ite {c : Prop} [Decidable c] {other : Reader α} (h : Incremental reader)
    (hother : Incremental other) : Incremental (if c then reader else other) := by
  split
  · exact h
  · exact hother

/-- A check needs no bytes. -/
theorem check {c : Prop} [Decidable c] {next : Unit → Reader α} (h : Incremental (next ())) :
    Incremental (if c then MonadExcept.throw e >>= next else next ()) :=
  .ite (.bind (.throw e) fun _ => h) h

end Incremental

theorem splitExact_eq_none (h : splitExact n input = none) : input.length < n := by
  by_contra hle
  have hsome := splitExact_eq_some.2 ⟨List.length_take_of_le (Nat.not_lt.1 hle),
    (List.take_append_drop n input).symm⟩
  rw [h] at hsome
  cases hsome

theorem incremental_bytes (n : Nat) : Incremental (bytes n) := by
  intro input more
  unfold bytes
  cases hsplit : splitExact n input with
  | none => exact .shortage _ _ (.intro (splitExact_eq_none hsplit))
  | some split =>
    obtain ⟨taken, rest⟩ := split
    obtain ⟨hlen, rfl⟩ := splitExact_eq_some.1 hsplit
    rw [splitExact_eq_some.2 ⟨hlen, List.append_assoc taken rest more⟩]
    exact .ok taken rest

theorem incremental_number (width : Nat) : Incremental (number width) :=
  .bind (incremental_bytes width) fun _ => .pure _

theorem incremental_u8 : Incremental u8 := .bind (incremental_number 1) fun _ => .pure _

theorem incremental_i64 : Incremental i64 := .bind (incremental_number 8) fun _ => .pure _

theorem incremental_require (n : Nat) : Incremental (require n) := by
  intro input more
  unfold require
  by_cases hlt : input.length < n
  · rw [if_pos hlt]
    exact .shortage _ _ (.intro hlt)
  · rw [if_neg hlt, if_neg (by rw [List.length_append]; omega)]
    exact .ok () input

theorem incremental_count (size : Nat) : Incremental (count size) :=
  .bind (incremental_number 4) fun n => .bind (incremental_require (n * size)) fun _ => .pure n

theorem Incremental.many {item : Reader α} (h : Incremental item) (n : Nat) :
    Incremental (many item n) := by
  induction n with
  | zero => exact .pure []
  | succ n ih => exact .bind h fun _ => .bind ih fun _ => .pure _

theorem runAll_of_error (h : reader input = .error e) : reader.runAll input = .error e := by
  simp [runAll, Bind.bind, StateT.bind, Except.bind, h]

theorem runAll_of_rest (h : reader input = .ok (a, rest)) (hrest : rest ≠ []) :
    reader.runAll input = .error (.trailingBytes rest.length) := by
  simp [runAll, Bind.bind, StateT.bind, Except.bind, h, finish, hrest]

/-- A message that such a reader accepts is accepted as it is only. -/
theorem Incremental.whole (h : Incremental reader) (hok : reader.runAll input = .ok a) :
    Whole reader.runAll input := by
  rw [runAll_eq_ok] at hok
  constructor
  · rintro fewer ⟨more, rfl⟩ hne
    have hmore : more ≠ [] := by
      rintro rfl
      exact hne (List.append_nil fewer).symm
    have hread := h fewer more
    rw [hok] at hread
    obtain ⟨_, herror, ⟨hlt⟩⟩ := hread.isShortage hmore
    exact ⟨_, _, hlt, runAll_of_error herror⟩
  · intro more hne
    have hread := h input more
    rw [hok] at hread
    exact runAll_of_rest hread.of_ok hne

end Reader

open Reader

theorem incremental_readHeader (type : UInt8) : Incremental (readHeader type) :=
  .bind (incremental_number 4) fun _ =>
    .check (.bind incremental_u8 fun _ => .ite (.throw _) (.pure _))

/-- What is wrong with a pair is found when both of its numbers have been read. -/
theorem incremental_readIntervals (index floor : Nat) (b : RowSet.Builder) (n : Nat) :
    Incremental (readIntervals index floor b n) := by
  induction n generalizing index floor b with
  | zero => exact .pure b
  | succ n ih =>
    refine .bind (incremental_number 8) fun first => .bind (incremental_number 8) fun last => ?_
    exact .check (.check (.check (ih (index + 1) (last + 1) (b.addInterval first (last + 1)))))

theorem incremental_readRowSet : Incremental readRowSet :=
  .bind (incremental_count 16) fun n =>
    .bind (incremental_readIntervals 0 0 .empty n) fun _ => .pure _

theorem incremental_readShift : Incremental readShift :=
  .bind (incremental_number 8) fun _ => .bind (incremental_number 8) fun _ =>
    .bind (incremental_number 8) fun _ => .pure _

end Wire

namespace UpdateMetadata

open Wire Wire.Reader

theorem incremental_reader : Incremental reader := by
  have hshifts : Incremental (count 24 >>= many readShift) :=
    .bind (incremental_count 24) incremental_readShift.many
  have hmodified : Incremental (count 4 >>= many readRowSet) :=
    .bind (incremental_count 4) incremental_readRowSet.many
  refine .bind (incremental_readHeader messageType) fun _ => ?_
  refine .bind incremental_i64 fun firstSeq => .bind incremental_i64 fun lastSeq => ?_
  refine .bind incremental_u8 fun flags => .bind incremental_readRowSet fun removed => ?_
  refine .bind hshifts fun shifts => .bind incremental_readRowSet fun added => ?_
  exact .bind hmodified fun modified => .pure _

/-- Metadata is told from its bytes as a whole: a message of which the end is missing is too short,
bytes after a message are too many, and so no message is the front of another one. -/
theorem whole_of_decode {b : List UInt8} {m : UpdateMetadata} (h : decode b = .ok m) :
    Whole decode b ∧ ∀ (longer : List UInt8) (m' : UpdateMetadata), decode longer = .ok m' →
      b <+: longer → longer = b := by
  have hwhole : Whole decode b := incremental_reader.whole h
  refine ⟨hwhole, ?_⟩
  rintro _ m' hlonger ⟨more, rfl⟩
  by_contra hne
  have htrailing := hwhole.trailing more (by simpa using hne)
  rw [hlonger] at htrailing
  cases htrailing

/-- The first part ends within a pair, of which there are two by the count before it. -/
theorem whole_of_decode_touching :
    decode touching.bytes = .ok touching.metadata ∧
      (∃ requested available, available < requested ∧
        decode (touching.bytes.take 41) = .error (.truncated requested available)) ∧
      decode (touching.bytes ++ [0]) = .error (.trailingBytes 1) := by
  have hread : decode touching.bytes = .ok touching.metadata := decode_eq_ok.2 ⟨touching, rfl, rfl⟩
  obtain ⟨hwhole, _⟩ := whole_of_decode hread
  exact ⟨hread, hwhole.truncated _ (List.take_prefix 41 _) (by decide),
    hwhole.trailing [0] (by decide)⟩

end UpdateMetadata
end TickingTable
