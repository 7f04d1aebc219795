import TickingTable.Proofs.RowSet.Canonical
import TickingTable.Proofs.RowSet.Shift
import TickingTable.Proofs.Wire.Metadata

/-! Row sets made by any composition of the operations store the runs of their members, within the
64-bit keys. -/

namespace TickingTable

namespace Interval

variable {l : List Interval} {i : Interval} {k : Nat}

/-- No interval holds the key in front of the start of one. -/
theorem Canonical.not_covers_before (h : Canonical l) (hi : i ∈ l) (hk : k + 1 = i.lo) :
    ¬ Covers l k := by
  induction l with
  | nil => cases hi
  | cons a l ih =>
    intro hcov
    have hne := h.lo_lt_hi
    rcases List.mem_cons.1 hi with rfl | hi
    · rcases covers_cons.1 hcov with hin | hfar
      · omega
      · have := h.hi_lt hfar
        omega
    · have hgap := (List.pairwise_cons.1 h.2).1 i hi
      rcases covers_cons.1 hcov with hin | hfar
      · omega
      · exact ih h.tail hi hfar

end Interval

namespace RowSet

open TickingTable.Interval

variable {r s p : RowSet} {i : Interval} {k : Nat}

/-- All keys of the interval are members and the keys on both sides of it are not. -/
structure IsRun (r : RowSet) (i : Interval) : Prop where
  nonempty : i.lo < i.hi
  inside : ∀ k, i.lo ≤ k → k < i.hi → k ∈ r
  after : ¬ i.hi ∈ r
  before : ∀ k, k + 1 = i.lo → ¬ k ∈ r

theorem isRun_of_mem (hi : i ∈ r.intervals) : r.IsRun i where
  nonempty := r.canonical.1 i hi
  inside _ hlo hhi := ⟨i, hi, hlo, hhi⟩
  after := r.canonical.not_covers_hi hi
  before _ hk := r.canonical.not_covers_before hi hk

/-- Two runs that share a key are the same. -/
theorem IsRun.unique {j : Interval} (hi : r.IsRun i) (hj : r.IsRun j) (hlo : j.lo ≤ i.lo)
    (hhi : i.lo < j.hi) : i = j := by
  have hstart : j.lo = i.lo := by
    by_contra hne
    exact hi.before (i.lo - 1) (by omega) (hj.inside _ (by omega) (by omega))
  have hend : j.hi = i.hi := by
    have hne := hi.nonempty
    rcases Nat.lt_trichotomy j.hi i.hi with hlt | heq | hgt
    · exact absurd (hi.inside _ (by omega) hlt) hj.after
    · exact heq
    · exact absurd (hj.inside _ (by omega) hgt) hi.after
  cases i
  cases j
  simp_all

theorem mem_intervals_iff : i ∈ r.intervals ↔ r.IsRun i := by
  constructor
  · exact isRun_of_mem
  · intro hi
    obtain ⟨j, hj, hlo, hhi⟩ := hi.inside i.lo (Nat.le_refl _) hi.nonempty
    rwa [hi.unique (isRun_of_mem hj) hlo hhi]

/-- What a builder is asked to add. -/
inductive Builder.Call where
  | key (k : Nat)
  | interval (lo hi : Nat)

namespace Builder

/-- The ends of intervals are 64-bit numbers. -/
def Call.Fits : Call → Prop
  | .key _ => True
  | .interval _ hi => hi ≤ reservedKey

def take (b : Builder) : Call → Builder
  | .key k => b.addKey k
  | .interval lo hi => b.addInterval lo hi

def takeAll (b : Builder) (calls : List Call) : Builder := calls.foldl take b

/-- The keys that a call names. -/
def Call.Names : Call → Nat → Prop
  | .key j, k => k = j
  | .interval lo hi, k => lo ≤ k ∧ k < hi

@[simp] theorem takeAll_cons (b : Builder) (call : Call) (calls : List Call) :
    b.takeAll (call :: calls) = (b.take call).takeAll calls := rfl

theorem holds_take {b : Builder} {call : Call} (hfits : call.Fits) :
    (b.take call).Holds k ↔ b.Holds k ∨ (k < reservedKey ∧ call.Names k) := by
  cases call with
  | key j =>
    rw [take, addKey, holds_addInterval]
    apply or_congr_right
    simp only [Call.Names]
    omega
  | interval lo hi =>
    have hhi : hi ≤ reservedKey := hfits
    rw [take, holds_addInterval]
    apply or_congr_right
    simp only [Call.Names]
    omega

/-- Whether a call grows the latest interval or adds one makes no difference to what is held. -/
theorem holds_takeAll {b : Builder} {calls : List Call} (hfits : ∀ call ∈ calls, call.Fits) :
    (b.takeAll calls).Holds k ↔
      b.Holds k ∨ (k < reservedKey ∧ ∃ call ∈ calls, call.Names k) := by
  induction calls generalizing b with
  | nil => simp [takeAll]
  | cons call calls ih =>
    obtain ⟨hcall, hcalls⟩ := List.forall_mem_cons.1 hfits
    rw [takeAll_cons, ih hcalls, holds_take hcall, or_assoc, ← and_or_left,
      List.exists_mem_cons_iff]

theorem mem_build_takeAll {calls : List Call} (hfits : ∀ call ∈ calls, call.Fits) :
    k ∈ (empty.takeAll calls).build ↔ k < reservedKey ∧ ∃ call ∈ calls, call.Names k := by
  rw [mem_build, holds_takeAll hfits, or_iff_right]
  exact covers_nil

end Builder

/-- The row sets that any number of operations on 64-bit numbers make of nothing, of messages and of
each other. -/
inductive Composed : RowSet → Prop
  | empty : Composed .empty
  | built (calls : List Builder.Call) : (∀ call ∈ calls, call.Fits) →
    Composed (Builder.empty.takeAll calls).build
  | ofInterval (lo hi : Nat) : hi ≤ reservedKey → Composed (.ofInterval lo hi)
  | ofKeys (keys : List Nat) : Composed (.ofKeys keys)
  | positions (n : Nat) : n ≤ reservedKey → Composed (.positions n)
  | union {r s : RowSet} : Composed r → Composed s → Composed (r.union s)
  | difference {r s : RowSet} : Composed r → Composed s → Composed (r.difference s)
  | positionsOf {r s p : RowSet} : Composed r → Composed s → r.positionsOf? s = some p → Composed p
  | shifted {r s : RowSet} (shifts : List ShiftRange) : Composed r → r.ShiftsBelow shifts →
    r.shift? shifts = some s → Composed s
  | decoded {r : RowSet} (input : List UInt8) (m : UpdateMetadata) :
    UpdateMetadata.decode input = .ok m → r = m.removed ∨ r = m.added ∨ r ∈ m.modified → Composed r

theorem takeAll_map_key (keys : List Nat) (b : Builder) :
    keys.foldl Builder.addKey b = b.takeAll (keys.map .key) := by
  rw [Builder.takeAll, List.foldl_map]
  rfl

theorem size_le_of_forall_lt (h : ∀ k, k ∈ r → k < reservedKey) : r.size ≤ reservedKey := by
  rw [← length_toList]
  exact length_le_of_ascending r.pairwise_toList fun k hk =>
    ⟨Nat.zero_le _, h k (mem_toList.1 hk)⟩

theorem mem_ofKeys {keys : List Nat} : k ∈ ofKeys keys ↔ k < reservedKey ∧ k ∈ keys := by
  rw [ofKeys, takeAll_map_key, Builder.mem_build_takeAll]
  · simp [Builder.Call.Names]
  · intro call hcall
    obtain ⟨j, _, rfl⟩ := List.mem_map.1 hcall
    trivial

/-- No operation brings in the reserved key. -/
theorem Composed.lt_reservedKey (h : Composed r) : ∀ k, k ∈ r → k < reservedKey := by
  induction h with
  | empty => exact fun k hk => absurd hk not_mem_empty
  | built calls hfits => exact fun k hk => ((Builder.mem_build_takeAll hfits).1 hk).1
  | ofInterval lo hi hhi =>
    intro k hk
    have hin : lo ≤ k ∧ k < hi := by simpa [RowSet.ofInterval] using hk
    omega
  | ofKeys keys => exact fun k hk => (mem_ofKeys.1 hk).1
  | positions n hn => exact fun k hk => Nat.lt_of_lt_of_le (mem_positions.1 hk) hn
  | union _ _ ihr ihs =>
    intro k hk
    rcases mem_union.1 hk with hk | hk
    · exact ihr k hk
    · exact ihs k hk
  | difference _ _ ihr _ => exact fun k hk => ihr k (mem_difference.1 hk).1
  | positionsOf _ _ hp ihr _ =>
    intro k hk
    exact Nat.lt_of_lt_of_le (lt_size_of_mem_positionsOf? hp hk) (size_le_of_forall_lt ihr)
  | shifted shifts _ hb hs ihr => exact fun k hk => lt_reservedKey_of_shift? ihr hb hs hk
  | decoded input m hm hr => exact UpdateMetadata.keysBelow_of_decode hm _ hr

/-- The intervals of a composed row set are the runs of its members: none is empty, gaps separate
them in ascending order and their ends fit in 64 bits. So the intervals of two such sets are equal
just if the sets have the same members. -/
theorem composed_canonical (hr : Composed r) (s : RowSet) :
    (∀ i ∈ r.intervals, i.lo < i.hi ∧ i.hi ≤ reservedKey) ∧
      (r.intervals.Pairwise fun i j => i.hi < j.lo) ∧
      (∀ i, i ∈ r.intervals ↔ r.IsRun i) ∧
      (r.intervals = s.intervals ↔ ∀ k, k ∈ r ↔ k ∈ s) := by
  refine ⟨?_, r.canonical.2, fun i => mem_intervals_iff, ?_, ?_⟩
  · intro i hi
    exact ⟨r.canonical.1 i hi, hi_le_of_forall_lt hr.lt_reservedKey hi⟩
  · intro h
    exact eq_iff_mem.1 (ext_intervals h)
  · intro h
    rw [eq_iff_mem.2 h]

/-- Keys that were moved up to a gap are those of an interval without that gap. -/
theorem composed_canonical_shifted :
    ∃ r, (ofKeys [1, 2, 3, 10, 11]).shift? [⟨10, 20, 5⟩] = some r ∧ Composed r ∧ r.IsRun ⟨5, 7⟩ ∧
      ∀ k, k ∈ r ↔ k ∈ (ofInterval 1 7).difference (ofKeys [4]) := by
  have hshift : (ofKeys [1, 2, 3, 10, 11]).shift? [⟨10, 20, 5⟩] =
      some ⟨[⟨1, 4⟩, ⟨5, 7⟩], by simp, by simp⟩ := by decide +kernel
  have hbelow : (ofKeys [1, 2, 3, 10, 11]).ShiftsBelow [⟨10, 20, 5⟩] := by
    intro k _ s hs _ hk
    obtain rfl := List.mem_singleton.1 hs
    unfold reservedKey
    dsimp only at hk ⊢
    omega
  have hr := Composed.shifted _ (.ofKeys [1, 2, 3, 10, 11]) hbelow hshift
  obtain ⟨_, _, hruns, hequal⟩ := composed_canonical hr ((ofInterval 1 7).difference (ofKeys [4]))
  exact ⟨_, hshift, hr, (hruns ⟨5, 7⟩).1 (by simp), hequal.1 (by decide +kernel)⟩

end RowSet
end TickingTable
