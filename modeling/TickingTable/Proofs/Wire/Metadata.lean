import Mathlib.Data.List.Chain
import TickingTable.Proofs.RowSet.Canonical
import TickingTable.Proofs.Wire.Reader
import TickingTable.Wire.Metadata

/-! The grammar of metadata messages, and that exactly its messages can be read. -/

namespace TickingTable

/-- Every bound of the range fits into eight bytes. -/
def ShiftRange.Fits (s : ShiftRange) : Prop :=
  s.first < 2 ^ 64 ∧ s.last < 2 ^ 64 ∧ s.dest < 2 ^ 64

namespace Wire

variable {input rest : List UInt8}

/-- A pair in the bytes of a row set: the first and the last key of an interval. -/
structure Span where
  first : Nat
  last : Nat
  first_le : first ≤ last
  last_lt : last < reservedKey
deriving DecidableEq

namespace Span

def bytes (s : Span) : List UInt8 := LittleEndian.encode 8 s.first ++ LittleEndian.encode 8 s.last

def interval (s : Span) : Interval := ⟨s.first, s.last + 1⟩

/-- A span ends before another one starts. -/
def Before (s t : Span) : Prop := s.last < t.first

instance : Trans Before Before Before where
  trans {_ t _} hst htu := Nat.lt_trans hst (Nat.lt_of_le_of_lt t.first_le htu)

@[simp] theorem length_bytes (s : Span) : s.bytes.length = 16 := by simp [bytes]

theorem selfDelimiting_bytes : SelfDelimiting bytes := by
  apply selfDelimiting_of_length
  · simp
  · rintro ⟨first, last, hle, hlt⟩ ⟨first', last', hle', hlt'⟩ he
    have hwidth : reservedKey < 256 ^ 8 := by decide
    obtain ⟨hfirst, hlast⟩ := List.append_inj he (by simp)
    obtain rfl : first = first' :=
      LittleEndian.encode_inj (Nat.lt_trans (Nat.lt_of_le_of_lt hle hlt) hwidth)
        (Nat.lt_trans (Nat.lt_of_le_of_lt hle' hlt') hwidth) hfirst
    obtain rfl : last = last' :=
      LittleEndian.encode_inj (Nat.lt_trans hlt hwidth) (Nat.lt_trans hlt' hwidth) hlast
    rfl

end Span

/-- The pairs of a row set as a message lists them. -/
structure Pairs extends Counted Span where
  ascending : list.IsChain Span.Before

namespace Pairs

def bytes (p : Pairs) : List UInt8 := p.toCounted.bytes Span.bytes

/-- Some pair covers the key. -/
def Holds (p : Pairs) (k : Nat) : Prop := ∃ s ∈ p.list, s.first ≤ k ∧ k ≤ s.last

def rowSet (p : Pairs) : RowSet := .ofIntervals (p.list.map Span.interval)

theorem mem_rowSet {p : Pairs} {k : Nat} : k ∈ p.rowSet ↔ p.Holds k := by
  simp only [rowSet, RowSet.mem_ofIntervals, Interval.Covers, Holds, List.mem_map,
    exists_exists_and_eq_and, Span.interval, Nat.lt_succ_iff]

theorem lt_of_mem_rowSet {p : Pairs} {k : Nat} (h : k ∈ p.rowSet) : k < reservedKey := by
  obtain ⟨s, _, _, hle⟩ := mem_rowSet.1 h
  exact Nat.lt_of_le_of_lt hle s.last_lt

theorem four_le_length_bytes (p : Pairs) : 4 ≤ p.bytes.length := by
  simp [bytes, Counted.bytes]

theorem selfDelimiting_bytes : SelfDelimiting bytes := by
  rintro ⟨l, hl⟩ ⟨m, hm⟩ r s he
  obtain ⟨rfl, hrest⟩ := Span.selfDelimiting_bytes.counted _ _ _ _ he
  exact ⟨rfl, hrest⟩

end Pairs

/-- Reading takes as many spans as asked for, of which each starts after the one before it. -/
theorem readIntervals_eq_ok {index floor n : Nat} {b b' : RowSet.Builder} :
    readIntervals index floor b n input = .ok (b', rest) ↔ ∃ spans : List Span,
      spans.length = n ∧ spans.IsChain Span.Before ∧
        (0 < index → ∀ s ∈ spans.head?, floor ≤ s.first) ∧
        b.addAll (spans.map Span.interval) = b' ∧ input = spans.flatMap Span.bytes ++ rest := by
  induction n generalizing index floor b input with
  | zero =>
    simp only [readIntervals, Reader.pure_eq_ok, List.length_eq_zero_iff]
    constructor
    · rintro ⟨rfl, rfl⟩
      exact ⟨[], rfl, .nil, by simp, rfl, rfl⟩
    · rintro ⟨spans, rfl, _, _, rfl, rfl⟩
      exact ⟨rfl, rfl⟩
  | succ n ih =>
    simp only [readIntervals, Reader.u64, Reader.bind_eq_ok, Reader.number_eq_ok,
      Reader.unless_eq_ok, ih]
    constructor
    · rintro ⟨first, _, ⟨_, rfl⟩, last, _, ⟨hlast, rfl⟩, hle, hfloor, hres, spans, rfl, hchain,
        hhead, rfl, rfl⟩
      have hlt : last < reservedKey := by
        unfold reservedKey at *
        omega
      refine ⟨⟨first, last, by omega, hlt⟩ :: spans, rfl, ?_, ?_, rfl, ?_⟩
      · exact List.isChain_cons.2 ⟨hhead (Nat.succ_pos index), hchain⟩
      · intro hpos s hs
        cases hs
        by_contra hbelow
        exact hfloor ⟨hpos, Nat.not_le.1 hbelow⟩
      · simp only [List.flatMap_cons, Span.bytes, List.append_assoc]
    · rintro ⟨spans, hn, hchain, hhead, rfl, rfl⟩
      cases spans with
      | nil => cases hn
      | cons s spans =>
        obtain ⟨hnext, hchain⟩ := List.isChain_cons.1 hchain
        have hle := s.first_le
        have hlt := s.last_lt
        unfold reservedKey at hlt
        refine ⟨s.first, _, ⟨by omega, ?_⟩, s.last, _, ⟨by omega, rfl⟩, by omega, ?_, ?_, spans,
          Nat.succ.inj hn, hchain, fun _ => hnext, rfl, rfl⟩
        · simp only [List.flatMap_cons, Span.bytes, List.append_assoc]
        · rintro ⟨hpos, hbelow⟩
          exact Nat.not_le.2 hbelow (hhead hpos s rfl)
        · unfold reservedKey
          omega

theorem reads_readRowSet : Reads readRowSet Pairs.bytes Pairs.rowSet := by
  intro input r rest
  simp only [readRowSet, Reader.bind_eq_ok, Reader.count_eq_ok, readIntervals_eq_ok,
    Reader.pure_eq_ok]
  constructor
  · rintro ⟨_, _, ⟨hn, rfl, _⟩, _, _, ⟨spans, rfl, hchain, _, rfl, rfl⟩, rfl, rfl⟩
    refine ⟨⟨⟨spans, hn⟩, hchain⟩, rfl, ?_⟩
    rw [Pairs.bytes, Counted.bytes, List.append_assoc]
  · rintro ⟨⟨⟨spans, hn⟩, hchain⟩, rfl, rfl⟩
    refine ⟨_, _, ⟨hn, ?_, ?_⟩, _, _, ⟨spans, rfl, hchain, by simp, rfl, rfl⟩, rfl, rfl⟩
    · rw [Pairs.bytes, Counted.bytes, List.append_assoc]
    · have hlen := length_mul_le_flatMap (fun s : Span => s.length_bytes.ge) spans
      rw [List.length_append]
      exact Nat.le_trans hlen (Nat.le_add_right _ _)

/-- A shift range as it is written. -/
abbrev Shift := {s : ShiftRange // s.Fits}

def Shift.bytes (s : Shift) : List UInt8 := encodeShift s.val

@[simp] theorem Shift.length_bytes (s : Shift) : s.bytes.length = 24 := by
  simp [bytes, encodeShift]

theorem Shift.selfDelimiting_bytes : SelfDelimiting Shift.bytes := by
  apply selfDelimiting_of_length
  · simp
  · rintro ⟨⟨first, last, dest⟩, hfirst, hlast, hdest⟩ ⟨⟨first', last', dest'⟩, hfirst', hlast',
      hdest'⟩ he
    obtain ⟨hfront, hd⟩ := List.append_inj he (by simp)
    obtain ⟨hf, hl⟩ := List.append_inj hfront (by simp)
    obtain rfl := LittleEndian.encode_inj hfirst hfirst' hf
    obtain rfl := LittleEndian.encode_inj hlast hlast' hl
    obtain rfl := LittleEndian.encode_inj hdest hdest' hd
    rfl

theorem reads_readShift : Reads readShift Shift.bytes Subtype.val := by
  intro input s rest
  simp only [readShift, Reader.u64, Reader.bind_eq_ok, Reader.number_eq_ok, Reader.pure_eq_ok]
  constructor
  · rintro ⟨first, _, ⟨hfirst, rfl⟩, last, _, ⟨hlast, rfl⟩, dest, _, ⟨hdest, rfl⟩, rfl, rfl⟩
    refine ⟨⟨⟨first, last, dest⟩, hfirst, hlast, hdest⟩, rfl, ?_⟩
    simp only [Shift.bytes, encodeShift, List.append_assoc]
  · rintro ⟨⟨⟨first, last, dest⟩, hfirst, hlast, hdest⟩, rfl, rfl⟩
    refine ⟨first, _, ⟨hfirst, ?_⟩, last, _, ⟨hlast, rfl⟩, dest, _, ⟨hdest, rfl⟩, rfl, rfl⟩
    simp only [Shift.bytes, encodeShift, List.append_assoc]

theorem readHeader_eq_ok {type : UInt8} {u : Unit} :
    readHeader type input = .ok (u, rest) ↔ input = encodeHeader type ++ rest := by
  simp only [readHeader, Reader.u32, Reader.bind_eq_ok, Reader.number_eq_ok, Reader.unless_eq_ok,
    Reader.u8_eq_ok, Reader.check_eq_ok, ne_eq, Decidable.not_not]
  constructor
  · rintro ⟨found, _, ⟨_, rfl⟩, rfl, found', _, rfl, rfl, rfl⟩
    rfl
  · rintro rfl
    exact ⟨magic, _, ⟨by decide, rfl⟩, rfl, type, _, rfl, rfl, rfl⟩

end Wire

namespace UpdateMetadata

open Wire

variable {input rest : List UInt8} {m : UpdateMetadata}

theorem encode_int64_inj {x y : Int64}
    (h : LittleEndian.encode 8 x.toUInt64.toNat = LittleEndian.encode 8 y.toUInt64.toNat) :
    x = y := by
  have hnat := LittleEndian.encode_inj x.toUInt64.toNat_lt y.toUInt64.toNat_lt h
  exact congrArg UInt64.toInt64 (UInt64.toNat_inj.1 hnat)

/-- What the bytes of a message say, field by field. -/
structure Written where
  firstSeq : Int64
  lastSeq : Int64
  flags : UInt8
  removed : Pairs
  shifts : Counted Shift
  added : Pairs
  modified : Counted Pairs

namespace Written

def bytes (w : Written) : List UInt8 :=
  LittleEndian.encode 4 magic ++ [5] ++ LittleEndian.encode 8 w.firstSeq.toUInt64.toNat ++
    LittleEndian.encode 8 w.lastSeq.toUInt64.toNat ++ [w.flags] ++ w.removed.bytes ++
    w.shifts.bytes Shift.bytes ++ w.added.bytes ++ w.modified.bytes Pairs.bytes

def metadata (w : Written) : UpdateMetadata :=
  ⟨w.firstSeq, w.lastSeq, w.flags &&& 1 ≠ 0, w.removed.rowSet, w.shifts.list.map Subtype.val,
    w.added.rowSet, w.modified.list.map Pairs.rowSet⟩

theorem selfDelimiting_bytes : SelfDelimiting bytes := by
  rintro ⟨firstSeq, lastSeq, flags, removed, shifts, added, modified⟩
    ⟨firstSeq', lastSeq', flags', removed', shifts', added', modified'⟩ r s he
  simp only [bytes, List.append_assoc] at he
  have hfields := List.append_cancel_left (List.append_cancel_left he)
  obtain ⟨hfirst, htail⟩ := List.append_inj hfields (by simp)
  obtain ⟨hlast, htail⟩ := List.append_inj htail (by simp)
  obtain ⟨hflags, htail⟩ := List.append_inj htail rfl
  obtain ⟨hremoved, htail⟩ := Pairs.selfDelimiting_bytes _ _ _ _ htail
  obtain ⟨hshifts, htail⟩ := Shift.selfDelimiting_bytes.counted _ _ _ _ htail
  obtain ⟨hadded, htail⟩ := Pairs.selfDelimiting_bytes _ _ _ _ htail
  obtain ⟨hmodified, hrest⟩ := Pairs.selfDelimiting_bytes.counted _ _ _ _ htail
  refine ⟨?_, hrest⟩
  rw [encode_int64_inj hfirst, encode_int64_inj hlast, List.singleton_inj.1 hflags, hremoved,
    hshifts, hadded, hmodified]

end Written

theorem reads_reader : Reads reader Written.bytes Written.metadata := by
  intro input m rest
  -- The counted lists are read by binds of their own, which must not be taken apart here.
  have hshifts := reads_readShift.counted fun s => (Shift.length_bytes s).ge
  have hmodified := reads_readRowSet.counted Pairs.four_le_length_bytes
  unfold reader
  generalize Reader.count 24 >>= Reader.many readShift = readShifts at hshifts ⊢
  generalize Reader.count 4 >>= Reader.many readRowSet = readModified at hmodified ⊢
  simp only [Reader.bind_eq_ok, readHeader_eq_ok, Reader.i64_eq_ok, Reader.u8_eq_ok, hshifts _ _ _,
    hmodified _ _ _, reads_readRowSet _ _ _, Reader.pure_eq_ok]
  constructor
  · rintro ⟨_, _, rfl, firstSeq, _, rfl, lastSeq, _, rfl, flags, _, rfl, _, _, ⟨removed, rfl, rfl⟩,
      _, _, ⟨shifts, rfl, rfl⟩, _, _, ⟨added, rfl, rfl⟩, _, _, ⟨modified, rfl, rfl⟩, rfl, rfl⟩
    refine ⟨⟨firstSeq, lastSeq, flags, removed, shifts, added, modified⟩, rfl, ?_⟩
    simp only [Written.bytes, List.append_assoc]
    rfl
  · rintro ⟨w, rfl, rfl⟩
    refine ⟨(), _, ?_, w.firstSeq, _, rfl, w.lastSeq, _, rfl, w.flags, _, rfl, _, _,
      ⟨w.removed, rfl, rfl⟩, _, _, ⟨w.shifts, rfl, rfl⟩, _, _, ⟨w.added, rfl, rfl⟩, _, _,
      ⟨w.modified, rfl, rfl⟩, rfl, rfl⟩
    simp only [Written.bytes, List.append_assoc]
    rfl

theorem decode_eq_ok : decode input = .ok m ↔ ∃ w : Written, w.metadata = m ∧ input = w.bytes := by
  rw [decode, Reader.runAll_eq_ok, reads_reader]
  simp only [List.append_nil]

/-- No row set of a message holds the reserved key. -/
def KeysBelow (m : UpdateMetadata) : Prop :=
  ∀ r, r = m.removed ∨ r = m.added ∨ r ∈ m.modified → ∀ k, k ∈ r → k < reservedKey

theorem Written.keysBelow (w : Written) : w.metadata.KeysBelow := by
  rintro r (rfl | rfl | hr) k hk
  · exact Pairs.lt_of_mem_rowSet hk
  · exact Pairs.lt_of_mem_rowSet hk
  · obtain ⟨p, _, rfl⟩ := List.mem_map.1 hr
    exact Pairs.lt_of_mem_rowSet hk

theorem keysBelow_of_decode (h : decode input = .ok m) : m.KeysBelow := by
  obtain ⟨w, rfl, _⟩ := decode_eq_ok.1 h
  exact w.keysBelow

/-- The metadata has the values of the written fields, and its row sets hold the keys that the
pairs cover. -/
structure Written.Describes (w : Written) (m : UpdateMetadata) : Prop where
  firstSeq : m.firstSeq = w.firstSeq
  lastSeq : m.lastSeq = w.lastSeq
  isSnapshot : m.isSnapshot = true ↔ w.flags &&& 1 ≠ 0
  removed : ∀ k, k ∈ m.removed ↔ w.removed.Holds k
  shifts : m.shifts = w.shifts.list.map Subtype.val
  added : ∀ k, k ∈ m.added ↔ w.added.Holds k
  modified : List.Forall₂ (fun (r : RowSet) p => ∀ k, k ∈ r ↔ Pairs.Holds p k) m.modified
    w.modified.list

theorem Written.describes (w : Written) : w.Describes w.metadata where
  firstSeq := rfl
  lastSeq := rfl
  isSnapshot := decide_eq_true_iff
  removed _ := Pairs.mem_rowSet
  shifts := rfl
  added _ := Pairs.mem_rowSet
  modified := by
    rw [metadata, List.forall₂_map_left_iff, List.forall₂_same]
    intro p _ k
    exact Pairs.mem_rowSet

/-- The messages that can be read are those of the grammar, and what is read is what they say. -/
theorem decodable_iff_written (b : List UInt8) :
    ((∃ m, decode b = .ok m) ↔ ∃ w : Written, b = w.bytes) ∧
      ∀ w : Written, b = w.bytes → ∃ m, decode b = .ok m ∧ w.Describes m := by
  have hread : ∀ w : Written, b = w.bytes → decode b = .ok w.metadata := by
    intro w hb
    exact decode_eq_ok.2 ⟨w, rfl, hb⟩
  refine ⟨⟨?_, ?_⟩, ?_⟩
  · rintro ⟨m, hm⟩
    obtain ⟨w, _, hb⟩ := decode_eq_ok.1 hm
    exact ⟨w, hb⟩
  · rintro ⟨w, hb⟩
    exact ⟨w.metadata, hread w hb⟩
  · intro w hb
    exact ⟨w.metadata, hread w hb, w.describes⟩

/-- A message with spare flag bits that lists all keys in two pairs, of which one starts right
after the end of the other, and a shift range that no rows can be moved by. -/
def touching : Written where
  firstSeq := -1
  lastSeq := 0
  flags := 0xFE
  removed := ⟨⟨[⟨0, 4, by decide, by decide⟩, ⟨5, reservedKey - 1, by decide, by decide⟩],
    by decide⟩, by simp [Span.Before]⟩
  shifts := ⟨[⟨⟨7, 3, reservedKey⟩, by decide, by decide, by decide⟩], by decide⟩
  added := ⟨⟨[], by decide⟩, .nil⟩
  modified := ⟨[], by decide⟩

theorem decodable_iff_written_touching :
    ∃ m, decode touching.bytes = .ok m ∧ m.firstSeq = -1 ∧ m.isSnapshot = false ∧
      (∀ k, k ∈ m.removed ↔ k < reservedKey) ∧ m.shifts = [⟨7, 3, reservedKey⟩] := by
  obtain ⟨m, hm, hd⟩ := (decodable_iff_written touching.bytes).2 touching rfl
  refine ⟨m, hm, hd.firstSeq, ?_, ?_, hd.shifts⟩
  · rw [← Bool.not_eq_true, hd.isSnapshot]
    decide
  · intro k
    rw [hd.removed]
    simp only [touching, Pairs.Holds, List.mem_cons, List.not_mem_nil, or_false, exists_eq_or_imp,
      exists_eq_left]
    unfold reservedKey
    omega

end UpdateMetadata
end TickingTable
