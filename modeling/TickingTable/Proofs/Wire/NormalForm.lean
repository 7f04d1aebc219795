import Mathlib
import TickingTable.Proofs.RowSet.Shift
import TickingTable.Proofs.Wire.Metadata

/-! Encoded metadata can be read again, and is the shortest of all messages that say the same. -/

namespace TickingTable

namespace Wire

/-- No pair starts right after the end of one. -/
def Pairs.Apart (p : Pairs) : Prop := ∀ s ∈ p.list, ∀ t ∈ p.list, t.first ≠ s.last + 1

namespace Pairs

variable {p : Pairs} {r : RowSet}

/-- Pairs are the intervals of a row set just if no two of them touch. -/
theorem canonical_iff_apart : Interval.Canonical (p.list.map Span.interval) ↔ p.Apart := by
  constructor
  · intro hcanonical s hs t ht htouch
    have hnot := hcanonical.not_covers_hi (List.mem_map_of_mem hs)
    apply hnot
    refine ⟨t.interval, List.mem_map_of_mem ht, ?_⟩
    have hle := t.first_le
    dsimp only [Span.interval]
    omega
  · intro hapart
    constructor
    · intro i hi
      obtain ⟨s, _, rfl⟩ := List.mem_map.1 hi
      exact Nat.lt_succ_of_le s.first_le
    · rw [List.pairwise_map]
      apply p.ascending.pairwise.imp_of_mem
      intro s t hs ht hst
      have hne := hapart s hs t ht
      dsimp only [Span.Before, Span.interval] at *
      omega

theorem intervals_rowSet (h : p.Apart) : p.rowSet.intervals = p.list.map Span.interval :=
  RowSet.intervals_ofIntervals (canonical_iff_apart.2 h)

/-- Pairs that lie apart are written again as they were read. -/
theorem encodeRowSet_rowSet (h : p.Apart) : encodeRowSet p.rowSet = p.bytes := by
  rw [encodeRowSet, intervals_rowSet h, List.length_map, List.flatMap_map]
  rfl

theorem length_bytes (p : Pairs) : p.bytes.length = 4 + p.list.length * 16 := by
  simp [bytes, Counted.bytes, List.length_flatMap]

theorem length_encodeRowSet (r : RowSet) :
    (encodeRowSet r).length = 4 + r.intervals.length * 16 := by
  simp [encodeRowSet, List.length_flatMap]

theorem length_intervals_le (p : Pairs) : p.rowSet.intervals.length ≤ p.list.length := by
  have hle := RowSet.length_intervals_ofIntervals_le (p.list.map Span.interval)
  rwa [List.length_map] at hle

theorem length_encodeRowSet_le (p : Pairs) : (encodeRowSet p.rowSet).length ≤ p.bytes.length := by
  rw [length_encodeRowSet, length_bytes]
  exact Nat.add_le_add_left (Nat.mul_le_mul_right 16 p.length_intervals_le) 4

/-- The intervals of a row set can be listed as pairs. -/
theorem exists_of_rowSet (hlen : r.intervals.length < 2 ^ 32)
    (hkeys : ∀ k, k ∈ r → k < reservedKey) : ∃ p : Pairs, p.rowSet = r ∧ p.Apart := by
  obtain ⟨spans, hspans⟩ : r.intervals ∈ Set.range (List.map Span.interval) := by
    rw [Set.range_list_map]
    intro i hi
    have hne := r.canonical.1 i hi
    have hhi := RowSet.hi_le_of_forall_lt hkeys hi
    refine ⟨⟨i.lo, i.hi - 1, by omega, by omega⟩, ?_⟩
    rw [Span.interval, Nat.sub_add_cancel (by omega)]
  have hcanonical : Interval.Canonical (spans.map Span.interval) := hspans ▸ r.canonical
  have hasc : spans.Pairwise Span.Before :=
    (List.pairwise_map.1 hcanonical.2).imp fun h => Nat.lt_of_succ_lt h
  rw [← hspans, List.length_map] at hlen
  refine ⟨⟨⟨spans, hlen⟩, hasc.isChain⟩, ?_, canonical_iff_apart.1 hcanonical⟩
  apply RowSet.ext_intervals
  rw [rowSet, RowSet.intervals_ofIntervals hcanonical, hspans]

theorem exists_of_rowSets {l : List RowSet} (h : ∀ r ∈ l, ∃ p : Pairs, p.rowSet = r ∧ p.Apart) :
    ∃ ps : List Pairs, ps.map rowSet = l ∧ ∀ p ∈ ps, p.Apart := by
  induction l with
  | nil => exact ⟨[], rfl, by simp⟩
  | cons r l ih =>
    obtain ⟨⟨p, rfl, hp⟩, hl⟩ := List.forall_mem_cons.1 h
    obtain ⟨ps, rfl, hps⟩ := ih hl
    exact ⟨p :: ps, rfl, List.forall_mem_cons.2 ⟨hp, hps⟩⟩

end Pairs
end Wire

namespace UpdateMetadata

open Wire

variable {m : UpdateMetadata} {w : Written}

/-- The keys and bounds fit into eight bytes each and the lengths of the lists into four. -/
structure Encodable (m : UpdateMetadata) : Prop where
  keys : m.KeysBelow
  intervals : ∀ r, r = m.removed ∨ r = m.added ∨ r ∈ m.modified → r.intervals.length < 2 ^ 32
  bounds : ∀ s ∈ m.shifts, s.Fits
  shifts : m.shifts.length < 2 ^ 32
  modified : m.modified.length < 2 ^ 32

/-- The spare bits of the flags are clear and the pairs of each row set apart. -/
structure Written.Normal (w : Written) : Prop where
  flags : w.flags = 0 ∨ w.flags = 1
  apart : ∀ p, p = w.removed ∨ p = w.added ∨ p ∈ w.modified.list → p.Apart

/-- Some message in normal form says what the metadata says. -/
theorem exists_normal (h : m.Encodable) : ∃ w : Written, w.metadata = m ∧ w.Normal := by
  have hpairs : ∀ r, r = m.removed ∨ r = m.added ∨ r ∈ m.modified →
      ∃ p : Pairs, p.rowSet = r ∧ p.Apart :=
    fun r hr => Pairs.exists_of_rowSet (h.intervals r hr) (h.keys r hr)
  have hflag : ∃ flags : UInt8, decide (flags &&& 1 ≠ 0) = m.isSnapshot ∧
      (flags = 0 ∨ flags = 1) := by
    cases m.isSnapshot
    · exact ⟨0, by decide, Or.inl rfl⟩
    · exact ⟨1, by decide, Or.inr rfl⟩
  obtain ⟨flags, hsnapshot, hspare⟩ := hflag
  obtain ⟨removed, hremoved, hapart⟩ := hpairs m.removed (Or.inl rfl)
  obtain ⟨added, hadded, hapart'⟩ := hpairs m.added (Or.inr (Or.inl rfl))
  obtain ⟨shifts, hshifts⟩ : ∃ l : List Shift, l.map Subtype.val = m.shifts :=
    ⟨m.shifts.attachWith ShiftRange.Fits h.bounds, List.attachWith_map_subtype_val _⟩
  obtain ⟨modified, hmodified, hall⟩ :=
    Pairs.exists_of_rowSets fun r hr => hpairs r (Or.inr (Or.inr hr))
  have hcount : shifts.length < 2 ^ 32 := by
    have := h.shifts
    rwa [← hshifts, List.length_map] at this
  have hcount' : modified.length < 2 ^ 32 := by
    have := h.modified
    rwa [← hmodified, List.length_map] at this
  refine ⟨⟨m.firstSeq, m.lastSeq, flags, removed, ⟨shifts, hcount⟩, added, ⟨modified, hcount'⟩⟩, ?_,
    hspare, ?_⟩
  · rw [Written.metadata, hsnapshot, hremoved, hshifts, hadded, hmodified]
  · rintro p (rfl | rfl | hp)
    · exact hapart
    · exact hapart'
    · exact hall p hp

namespace Written

theorem encodable (w : Written) : w.metadata.Encodable where
  keys := w.keysBelow
  intervals := by
    have hpairs : ∀ p : Pairs, p.rowSet.intervals.length < 2 ^ 32 :=
      fun p => Nat.lt_of_le_of_lt p.length_intervals_le p.length_lt
    rintro r (rfl | rfl | hr)
    · exact hpairs w.removed
    · exact hpairs w.added
    · obtain ⟨p, _, rfl⟩ := List.mem_map.1 hr
      exact hpairs p
  bounds := by
    intro s hs
    obtain ⟨t, _, rfl⟩ := List.mem_map.1 hs
    exact t.property
  shifts := by
    rw [metadata, List.length_map]
    exact w.shifts.length_lt
  modified := by
    rw [metadata, List.length_map]
    exact w.modified.length_lt

theorem encode_eq_bytes (h : w.Normal) : w.metadata.encode = w.bytes := by
  have hflags : (if w.metadata.isSnapshot then 1 else 0) = w.flags := by
    rcases h.flags with hf | hf <;> simp [metadata, hf]
  have hremoved := Pairs.encodeRowSet_rowSet (h.apart _ (Or.inl rfl))
  have hadded := Pairs.encodeRowSet_rowSet (h.apart _ (Or.inr (Or.inl rfl)))
  have hmodified : w.modified.list.flatMap (fun p => encodeRowSet p.rowSet) =
      w.modified.list.flatMap Pairs.bytes := by
    apply List.flatMap_congr
    intro p hp
    exact Pairs.encodeRowSet_rowSet (h.apart p (Or.inr (Or.inr hp)))
  rw [encode, hflags]
  simp only [metadata, List.length_map, List.flatMap_map, hremoved, hadded, hmodified, bytes,
    Counted.bytes, List.append_assoc]
  rfl

theorem length_encode_le (w : Written) : w.metadata.encode.length ≤ w.bytes.length := by
  have hremoved := w.removed.length_encodeRowSet_le
  have hadded := w.added.length_encodeRowSet_le
  have hmodified : (w.modified.list.flatMap fun p => encodeRowSet p.rowSet).length ≤
      (w.modified.list.flatMap Pairs.bytes).length := by
    rw [List.length_flatMap, List.length_flatMap]
    exact List.sum_le_sum fun p _ => p.length_encodeRowSet_le
  have hshifts : (w.shifts.list.flatMap fun s => encodeShift s.val).length =
      (w.shifts.list.flatMap Shift.bytes).length := rfl
  simp only [encode, metadata, bytes, Counted.bytes, encodeHeader, exchangeCommand,
    List.length_append, List.length_map, List.flatMap_map, LittleEndian.length_encode,
    List.length_singleton, hshifts]
  omega

/-- Just the messages in normal form are written by `encode`. -/
theorem encode_eq_bytes_iff : w.metadata.encode = w.bytes ↔ w.Normal := by
  constructor
  · intro he
    obtain ⟨v, hv, hnormal⟩ := exists_normal w.encodable
    have hbytes : v.bytes = w.bytes := by rw [← encode_eq_bytes hnormal, hv, he]
    rwa [selfDelimiting_bytes.injective hbytes] at hnormal
  · exact encode_eq_bytes

end Written

/-- Metadata that fits its format survives the way through its bytes. Messages that say the same
are encoded alike, in no more bytes than any of them has, and just those in normal form are
encoded as they are. -/
theorem encode_normalizes :
    (∀ m : UpdateMetadata, m.Encodable → decode m.encode = .ok m) ∧
      ∀ (b : List UInt8) (m : UpdateMetadata), decode b = .ok m →
        decode m.encode = .ok m ∧ m.encode.length ≤ b.length ∧ (∃! w : Written, b = w.bytes) ∧
          ∀ w : Written, b = w.bytes → (m.encode = b ↔ w.Normal) := by
  have hback : ∀ m : UpdateMetadata, m.Encodable → decode m.encode = .ok m := by
    intro m hm
    obtain ⟨w, rfl, hnormal⟩ := exists_normal hm
    exact decode_eq_ok.2 ⟨w, rfl, Written.encode_eq_bytes hnormal⟩
  refine ⟨hback, fun b m hm => ?_⟩
  obtain ⟨w, rfl, rfl⟩ := decode_eq_ok.1 hm
  refine ⟨hback _ w.encodable, w.length_encode_le, ⟨w, rfl, ?_⟩, ?_⟩
  · intro v hv
    exact Written.selfDelimiting_bytes.injective hv.symm
  · intro v hv
    obtain rfl := Written.selfDelimiting_bytes.injective hv
    exact Written.encode_eq_bytes_iff

theorem encode_normalizes_touching :
    decode touching.bytes = .ok touching.metadata ∧ touching.metadata.Encodable ∧
      decode touching.metadata.encode = .ok touching.metadata ∧
      touching.metadata.encode.length ≤ touching.bytes.length ∧
      touching.metadata.encode ≠ touching.bytes := by
  have hread : decode touching.bytes = .ok touching.metadata := by cbv
  obtain ⟨hback, hnormal⟩ := encode_normalizes
  obtain ⟨_, hlength, _, hiff⟩ := hnormal touching.bytes touching.metadata hread
  refine ⟨hread, touching.encodable, hback _ touching.encodable, hlength, ?_⟩
  intro he
  have hflags := ((hiff touching rfl).1 he).flags
  revert hflags
  decide

end UpdateMetadata
end TickingTable
