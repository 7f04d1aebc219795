import TickingTable.Proofs.Decoder.Frame
import TickingTable.Proofs.Decoder.Pending

/-! Counting the rows of a message. The counts tell which frames a message refuses and when it is
complete. -/

namespace TickingTable

/-- How many rows of a message have come: added rows, and modified rows of each column. -/
structure Tally where
  adds : Nat
  mods : List Nat
deriving DecidableEq

namespace Tally

/-- Nothing has come for any of `n` columns. -/
def zero (n : Nat) : Tally := ⟨0, List.replicate n 0⟩

/-- As long as added rows are missing, the rows of a frame are added ones. After that they are
modified rows of their columns. -/
def count (m : UpdateMetadata) (t : Tally) (rows : List Nat) : Tally :=
  if t.adds < m.added.size then { t with adds := t.adds + rows.headD 0 }
  else { t with mods := List.zipWith (· + ·) t.mods rows }

/-- All rows that a message declares have come. -/
def Full (m : UpdateMetadata) (t : Tally) : Prop :=
  t.adds = m.added.size ∧ t.mods = m.modified.map RowSet.size

/-- Column `c` is the first that would have received more than declared, `k` rows instead of `n`. -/
def FirstOver (declared received : List Nat) (c n k : Nat) : Prop :=
  (declared[c]? = some n ∧ received[c]? = some k ∧ n < k) ∧
    ∀ i < c, ∀ n k, declared[i]? = some n → received[i]? = some k → k ≤ n

/-- The error of a frame that brings `rows` for its columns, if they are not what is missing. -/
inductive Refuses (m : UpdateMetadata) (t : Tally) (rows : List Nat) : ProtocolError → Prop
  | uneven (a b : Nat) : t.adds < m.added.size → a ∈ rows → b ∈ rows → a ≠ b →
    Refuses m t rows .unevenAddColumns
  | adds (n : Nat) : t.adds < m.added.size → n ∈ rows → (∀ a ∈ rows, a = n) →
    m.added.size < t.adds + n → Refuses m t rows (.tooManyRows 0 m.added.size (t.adds + n))
  | mods (c n k : Nat) : m.added.size ≤ t.adds →
    FirstOver (m.modified.map RowSet.size) (List.zipWith (· + ·) t.mods rows) c n k →
    Refuses m t rows (.tooManyRows c n k)

variable {declared received : List Nat} {c n k n' k' : Nat}

theorem firstOver_cons_of_lt (h : n < k) :
    FirstOver (n :: declared) (k :: received) c n' k' ↔ c = 0 ∧ n' = n ∧ k' = k := by
  constructor
  · rintro ⟨⟨hn, hk, _⟩, hfirst⟩
    cases c with
    | zero =>
      cases hn
      cases hk
      exact ⟨rfl, rfl, rfl⟩
    | succ c =>
      have := hfirst 0 (Nat.succ_pos c) n k rfl rfl
      omega
  · rintro ⟨rfl, rfl, rfl⟩
    exact ⟨⟨rfl, rfl, h⟩, fun i hi => absurd hi (Nat.not_lt_zero i)⟩

theorem firstOver_cons_of_le (h : k ≤ n) :
    FirstOver (n :: declared) (k :: received) c n' k' ↔
      ∃ c', c = c' + 1 ∧ FirstOver declared received c' n' k' := by
  constructor
  · rintro ⟨⟨hn, hk, hover⟩, hfirst⟩
    cases c with
    | zero =>
      cases hn
      cases hk
      omega
    | succ c =>
      exact ⟨c, rfl, ⟨hn, hk, hover⟩, fun i hi => hfirst (i + 1) (Nat.succ_lt_succ hi)⟩
  · rintro ⟨c, rfl, ⟨hn, hk, hover⟩, hfirst⟩
    refine ⟨⟨hn, hk, hover⟩, fun i hi a b ha hb => ?_⟩
    cases i with
    | zero =>
      cases ha
      cases hb
      exact h
    | succ i => exact hfirst i (Nat.lt_of_succ_lt_succ hi) a b ha hb

section Missing

variable {m : UpdateMetadata} {t : Tally} {rows : List Nat} {e : ProtocolError}
  (hmissing : t.adds < m.added.size)

include hmissing

/-- While added rows are missing, columns of one length are refused only for being too long. -/
theorem refuses_even (hn : n ∈ rows) (heven : ∀ a ∈ rows, a = n) :
    t.Refuses m rows e ↔
      m.added.size < t.adds + n ∧ e = .tooManyRows 0 m.added.size (t.adds + n) := by
  constructor
  · intro h
    cases h with
    | uneven a b _ ha hb hne => exact absurd ((heven a ha).trans (heven b hb).symm) hne
    | adds k _ hk _ hover =>
      obtain rfl := heven k hk
      exact ⟨hover, rfl⟩
    | mods c n k hnone _ => omega
  · rintro ⟨hover, rfl⟩
    exact .adds n hmissing hn heven hover

/-- While added rows are missing, columns of different lengths are refused for just that. -/
theorem refuses_uneven {a b : Nat} (ha : a ∈ rows) (hb : b ∈ rows) (hne : a ≠ b) :
    t.Refuses m rows e ↔ e = .unevenAddColumns := by
  constructor
  · intro h
    cases h with
    | uneven => rfl
    | adds n _ _ heven _ => exact absurd ((heven a ha).trans (heven b hb).symm) hne
    | mods c n k hnone _ => omega
  · rintro rfl
    exact .uneven a b hmissing ha hb hne

end Missing

end Tally

namespace PendingMessage

variable {schema : Schema} {m : UpdateMetadata} {p q : PendingMessage} {columns : List Column}
  {deliveries : List Delivery} {declared : List RowSet} {index : Nat} {e : ProtocolError}

theorem deliverMods_eq_error (hd : declared.length = deliveries.length)
    (hc : columns.length = deliveries.length) :
    deliverMods index deliveries declared columns = .error e ↔
      ∃ c n k, e = .tooManyRows (index + c) n k ∧
        Tally.FirstOver (declared.map RowSet.size)
          (List.zipWith (fun d c => d.modsReceived + c.size) deliveries columns) c n k := by
  induction deliveries generalizing index declared columns with
  | nil =>
    obtain rfl : declared = [] := by simpa using hd
    simp [deliverMods, Tally.FirstOver, pure, Except.pure]
  | cons d deliveries ih =>
    obtain ⟨modified, declared, rfl⟩ := List.exists_cons_of_length_eq_add_one hd
    obtain ⟨c, columns, rfl⟩ := List.exists_cons_of_length_eq_add_one hc
    have ih' := @ih columns declared (index + 1) (by simpa using hd) (by simpa using hc)
    rw [deliverMods_cons, List.map_cons, List.zipWith_cons_cons]
    split
    · next hover =>
      simp only [Tally.firstOver_cons_of_lt hover, Except.error.injEq]
      constructor
      · rintro rfl
        exact ⟨0, _, _, rfl, rfl, rfl, rfl⟩
      · rintro ⟨_, _, _, rfl, rfl, rfl, rfl⟩
        rfl
    · next hfit =>
      simp only [Tally.firstOver_cons_of_le (Nat.not_lt.1 hfit)]
      rw [map_eq_error, ih']
      constructor
      · rintro ⟨c, n, k, rfl, hfirst⟩
        exact ⟨c + 1, n, k, by rw [Nat.add_assoc, Nat.add_comm 1], c, rfl, hfirst⟩
      · rintro ⟨_, n, k, rfl, c, rfl, hfirst⟩
        exact ⟨c, n, k, by rw [Nat.add_assoc, Nat.add_comm 1], hfirst⟩

/-- What the counters of a message say. -/
def tally (p : PendingMessage) : Tally :=
  ⟨p.addsReceived, p.deliveries.map Delivery.modsReceived⟩

@[simp] theorem adds_tally (p : PendingMessage) : p.tally.adds = p.addsReceived := rfl

@[simp] theorem mods_tally (p : PendingMessage) :
    p.tally.mods = p.deliveries.map Delivery.modsReceived := rfl

theorem addsOutstanding_pos (p : PendingMessage) :
    0 < p.addsOutstanding ↔ p.tally.adds < p.metadata.added.size :=
  Nat.sub_pos_iff_lt

theorem tally_start {n : Nat} (hn : 0 < n) (h : start m n = .ok p) : p.tally = .zero n := by
  obtain ⟨_, rfl⟩ := start_eq_ok.1 h
  simp [tally, Tally.zero, Nat.ne_of_gt hn]

theorem map_modsReceived_addAdds (hc : columns.length = deliveries.length) :
    (List.zipWith Delivery.addAdds deliveries columns).map Delivery.modsReceived =
      deliveries.map Delivery.modsReceived := by
  apply List.ext_getElem
  · simp [hc]
  · intro i hi hi'
    simp [Delivery.addAdds]

theorem map_modsReceived_addMods :
    (List.zipWith Delivery.addMods deliveries columns).map Delivery.modsReceived =
      List.zipWith (· + ·) (deliveries.map Delivery.modsReceived) (columns.map Column.size) := by
  rw [List.map_zipWith, List.zipWith_map]
  simp only [Delivery.modsReceived_addMods]

theorem tally_absorb (h : p.WellFormed schema) (hc : columns.length = schema.size)
    (ha : p.absorb columns = .ok q) :
    q.tally = p.tally.count p.metadata (columns.map Column.size) := by
  -- With added rows missing there is a first column, whose rows count.
  have hrows : ∀ n, 0 < p.addsOutstanding → (∀ c ∈ columns, c.size = n) →
      p.tally.count p.metadata (columns.map Column.size) =
        { p.tally with adds := p.addsReceived + n } := by
    intro n hout heven
    obtain ⟨c, rest, rfl⟩ := List.exists_cons_of_length_pos (hc ▸ h.size_pos hout)
    rw [Tally.count, if_pos ((addsOutstanding_pos p).1 hout), ← heven c List.mem_cons_self]
    rfl
  cases (absorb_eq_ok h hc).1 ha with
  | nothing hout hzero =>
    rw [hrows 0 hout hzero]
    rfl
  | adds rows hpos heven hfew =>
    rw [hrows rows (Nat.lt_of_lt_of_le hpos hfew) heven, tally,
      map_modsReceived_addAdds (hc.trans h.count.symm)]
    rfl
  | mods hnone _ =>
    have hnot : ¬ p.tally.adds < p.metadata.added.size := by
      rw [← addsOutstanding_pos, hnone]
      exact Nat.lt_irrefl 0
    rw [Tally.count, if_neg hnot, tally, map_modsReceived_addMods]
    rfl

theorem isComplete_iff_full (h : p.WellFormed schema) :
    p.isComplete = true ↔ p.tally.Full p.metadata := by
  have hlen := h.count.trans h.declared.symm
  have hadds := h.adds_le
  have hnone : p.addsOutstanding = 0 ↔ p.addsReceived = p.metadata.added.size := by
    unfold addsOutstanding
    omega
  rw [isComplete_iff, hnone]
  apply and_congr_right
  intro _
  constructor
  · intro hmods
    apply List.ext_getElem
    · simpa [tally] using hlen
    · intro i hi hi'
      have hd : i < p.deliveries.length := by simpa [tally] using hi
      have hm : i < p.metadata.modified.length := hlen ▸ hd
      simpa [tally] using
        hmods i _ _ (List.getElem?_eq_getElem hd) (List.getElem?_eq_getElem hm)
  · intro hmods i d modified hd hi
    have := congrArg (fun l => l[i]?) hmods
    simpa [tally, hd, hi] using this

theorem absorbAdds_eq_error (hne : columns ≠ []) (hout : 0 < p.addsOutstanding) :
    p.absorbAdds columns = .error e ↔
      p.tally.Refuses p.metadata (columns.map Column.size) e := by
  obtain ⟨first, rest, rfl⟩ := List.exists_cons_of_ne_nil hne
  have hmissing := (addsOutstanding_pos p).1 hout
  have hfirst : first.size ∈ (first :: rest).map Column.size :=
    List.mem_map_of_mem List.mem_cons_self
  have hmany : p.addsOutstanding < first.size ↔
      p.metadata.added.size < p.tally.adds + first.size := by
    rw [adds_tally] at hmissing ⊢
    unfold addsOutstanding
    omega
  rw [absorbAdds_cons]
  split
  · next heven =>
    have hrows : ∀ a ∈ (first :: rest).map Column.size, a = first.size := by
      intro a ha
      obtain ⟨c, hc, rfl⟩ := List.mem_map.1 ha
      exact heven c hc
    rw [Tally.refuses_even hmissing hfirst hrows, ← hmany]
    split
    · next hover => simp [hover, eq_comm, adds_tally]
    · next hfew =>
      constructor
      · intro h
        split at h <;> cases h
      · intro h
        exact absurd h.1 hfew
  · next hodd =>
    obtain ⟨c, hc, hne⟩ : ∃ c ∈ first :: rest, c.size ≠ first.size := by simpa using hodd
    rw [Tally.refuses_uneven hmissing (List.mem_map_of_mem hc) hfirst hne, Except.error.injEq,
      eq_comm]

theorem absorb_eq_error (h : p.WellFormed schema) (hc : columns.length = schema.size) :
    p.absorb columns = .error e ↔
      p.tally.Refuses p.metadata (columns.map Column.size) e := by
  unfold absorb
  split
  · next hout =>
    apply absorbAdds_eq_error _ hout
    rintro rfl
    exact Nat.ne_of_lt (h.size_pos hout) hc
  · next hnone =>
    have hall : p.metadata.added.size ≤ p.tally.adds :=
      Nat.not_lt.1 fun hout => hnone ((addsOutstanding_pos p).2 hout)
    have hrows : List.zipWith (· + ·) p.tally.mods (columns.map Column.size) =
        List.zipWith (fun d c => d.modsReceived + c.size) p.deliveries columns := by
      rw [mods_tally, List.zipWith_map]
    have hmods := @deliverMods_eq_error columns p.deliveries p.metadata.modified 0 e
      (h.declared.trans h.count.symm) (hc.trans h.count.symm)
    constructor
    · intro he
      rcases bind_eq_error.1 he with he | ⟨updated, _, he⟩
      · obtain ⟨c, n, k, rfl, hfirst⟩ := hmods.1 he
        rw [Nat.zero_add]
        exact .mods c n k hall (hrows ▸ hfirst)
      · cases he
    · intro he
      cases he with
      | uneven _ _ hout _ _ _ => omega
      | adds _ hout _ _ _ => omega
      | mods c n k _ hfirst =>
        refine bind_eq_error.2 (Or.inl (hmods.2 ⟨c, n, k, ?_, hrows ▸ hfirst⟩))
        rw [Nat.zero_add]

end PendingMessage
end TickingTable
