import TickingTable.Proofs.RowSet.Algebra

/-! The difference of two row sets as a scan with cursors. The scan ends, and what it has built then
is the difference. -/

namespace TickingTable

section

variable {α : Type} {l : List α} {n : Nat} {a : α}

theorem drop_eq_cons (h : l[n]? = some a) : l.drop n = a :: l.drop (n + 1) := by
  obtain ⟨hn, rfl⟩ := List.getElem?_eq_some_iff.1 h
  exact List.drop_eq_getElem_cons hn

theorem drop_eq_nil (h : l[n]? = none) : l.drop n = [] :=
  List.drop_eq_nil_of_le (List.getElem?_eq_none_iff.1 h)

end

namespace Interval

theorem without_of_le {lo hi : Nat} (h : hi ≤ lo) (cuts : List Interval) :
    without lo hi cuts = [] := by
  cases cuts <;> simp [without, Nat.not_lt.2 h]

/-- A state of the scan that takes intervals `m` out of intervals `l`. -/
structure Scan where
  /-- The number of the interval of `l` that comes next or is being cut. -/
  current : Nat
  /-- The cursor in `m` that all intervals of `l` share. -/
  shared : Nat
  /-- While an interval is being cut, the cursor in `m` that runs ahead, and the key from which on
  the interval is not looked at yet. -/
  cutting : Option (Nat × Nat)
  builder : RowSet.Builder

namespace Scan

variable {l m : List Interval} {s t : Scan} {i c : Interval} {ahead start : Nat}

def initial : Scan := ⟨0, 0, none, .empty⟩

/-- One round of one of the loops, unless the scan is at its end. -/
def step? (l m : List Interval) (s : Scan) : Option Scan :=
  l[s.current]?.map fun i =>
    match s.cutting with
    | none =>
      if m[s.shared]?.any fun c => decide (c.hi ≤ i.lo) then { s with shared := s.shared + 1 }
      else { s with cutting := some (s.shared, i.lo) }
    | some (ahead, start) =>
      if start < i.hi then
        match m[ahead]?.filter fun c => decide (c.lo < i.hi) with
        | some c =>
          { s with
            cutting := some (ahead + 1, max start c.hi)
            builder := if start < c.lo then s.builder.addInterval start c.lo else s.builder }
        | none =>
          { s with
            cutting := some (ahead, i.hi)
            builder := s.builder.addInterval start i.hi }
      else { s with current := s.current + 1, cutting := none }

/-- What a step can do, with the interval that it is about. -/
inductive Step (l m : List Interval) (s : Scan) (i : Interval) : Scan → Prop
  | skip (c : Interval) : s.cutting = none → m[s.shared]? = some c → c.hi ≤ i.lo →
    Step l m s i { s with shared := s.shared + 1 }
  | enter : s.cutting = none → (∀ c, m[s.shared]? = some c → i.lo < c.hi) →
    Step l m s i { s with cutting := some (s.shared, i.lo) }
  | cut (ahead start : Nat) (c : Interval) : s.cutting = some (ahead, start) → start < i.hi →
    m[ahead]? = some c → c.lo < i.hi →
    Step l m s i { s with
      cutting := some (ahead + 1, max start c.hi)
      builder := if start < c.lo then s.builder.addInterval start c.lo else s.builder }
  | rest (ahead start : Nat) : s.cutting = some (ahead, start) → start < i.hi →
    (∀ c, m[ahead]? = some c → i.hi ≤ c.lo) →
    Step l m s i { s with
      cutting := some (ahead, i.hi)
      builder := s.builder.addInterval start i.hi }
  | next (ahead start : Nat) : s.cutting = some (ahead, start) → i.hi ≤ start →
    Step l m s i { s with current := s.current + 1, cutting := none }

theorem step_of_step? (h : s.step? l m = some t) :
    ∃ i, l[s.current]? = some i ∧ Step l m s i t := by
  obtain ⟨i, hi, rfl⟩ := Option.map_eq_some_iff.1 h
  refine ⟨i, hi, ?_⟩
  split
  · next hidle =>
    split
    · next hskip =>
      obtain ⟨c, hc, hhi⟩ := (Option.any_eq_true _ _).1 hskip
      exact .skip c hidle hc (by simpa using hhi)
    · next hstay =>
      refine .enter hidle fun c hc => ?_
      simpa [hc] using hstay
  · next ahead start hcutting =>
    split
    · next hlt =>
      split
      · next c hc =>
        obtain ⟨hc, hlo⟩ := Option.filter_eq_some_iff.1 hc
        exact .cut ahead start c hcutting hlt hc (by simpa using hlo)
      · next hnone =>
        refine .rest ahead start hcutting hlt fun c hc => ?_
        simpa [hc] using hnone
    · next hend => exact .next ahead start hcutting (Nat.not_lt.1 hend)

/-- What the rest of the scan adds to the builder. -/
def remaining (l m : List Interval) (s : Scan) : List Interval :=
  match s.cutting, l.drop s.current with
  | none, l => difference l (m.drop s.shared)
  | some _, [] => []
  | some (ahead, start), i :: l =>
    without start i.hi (m.drop ahead) ++ difference l (m.drop s.shared)

theorem remaining_of_none (h : s.cutting = none) :
    s.remaining l m = difference (l.drop s.current) (m.drop s.shared) := by
  rw [remaining, h]

theorem remaining_of_some (h : s.cutting = some (ahead, start)) (hi : l[s.current]? = some i) :
    s.remaining l m = without start i.hi (m.drop ahead) ++
      difference (l.drop (s.current + 1)) (m.drop s.shared) := by
  rw [remaining, h, drop_eq_cons hi]

/-- What is built and what remains to be added are put together as before. -/
theorem addAll_step (hi : l[s.current]? = some i) (h : Step l m s i t) :
    t.builder.addAll (t.remaining l m) = s.builder.addAll (s.remaining l m) := by
  cases h with
  | skip c hidle hc hskip =>
    have ht : remaining l m { s with shared := s.shared + 1 } =
        difference (l.drop s.current) (m.drop (s.shared + 1)) := remaining_of_none hidle
    rw [ht, remaining_of_none hidle, drop_eq_cons hi, drop_eq_cons hc]
    simp [difference, hskip]
  | enter hidle hstay =>
    have hahead : (m.drop s.shared).dropWhile (fun c => decide (c.hi ≤ i.lo)) =
        m.drop s.shared := by
      cases hc : m[s.shared]? with
      | none => rw [drop_eq_nil hc, List.dropWhile_nil]
      | some c =>
        rw [drop_eq_cons hc, List.dropWhile_cons_of_neg]
        simpa using hstay c hc
    rw [remaining_of_some (s := ⟨_, _, _, _⟩) rfl hi, remaining_of_none hidle, drop_eq_cons hi,
      difference, hahead]
  | cut ahead start c hcutting hlt hc hlo =>
    rw [remaining_of_some (s := ⟨_, _, _, _⟩) rfl hi, remaining_of_some hcutting hi,
      drop_eq_cons hc, without, if_pos hlt, if_pos hlo]
    split
    · rfl
    · rfl
  | rest ahead start hcutting hlt hfar =>
    have hwhole : without start i.hi (m.drop ahead) = [⟨start, i.hi⟩] := by
      cases hc : m[ahead]? with
      | none => rw [drop_eq_nil hc, without, if_pos hlt]
      | some c =>
        rw [drop_eq_cons hc, without, if_pos hlt, if_neg (Nat.not_lt.2 (hfar c hc))]
    rw [remaining_of_some (s := ⟨_, _, _, _⟩) rfl hi, remaining_of_some hcutting hi, hwhole,
      without_of_le (Nat.le_refl _)]
    rfl
  | next ahead start hcutting hend =>
    rw [remaining_of_none (s := ⟨_, _, _, _⟩) rfl, remaining_of_some hcutting hi,
      without_of_le hend]
    rfl

/-- A bound on the number of steps to come. -/
def rank (l m : List Interval) (s : Scan) : Nat :=
  match s.cutting, l.drop s.current with
  | none, l => l.length * (2 * m.length + 3) + (m.length - s.shared)
  | some _, [] => 0
  | some (ahead, start), i :: l =>
    l.length * (2 * m.length + 3) + m.length + (m.length - ahead) +
      if start < i.hi then 2 else 1

theorem rank_step (hi : l[s.current]? = some i) (h : Step l m s i t) :
    t.rank l m < s.rank l m := by
  have hdrop := drop_eq_cons hi
  cases h with
  | skip c hidle hc _ =>
    have hlt := (List.getElem?_eq_some_iff.1 hc).1
    simp only [rank, hidle]
    omega
  | enter hidle _ =>
    simp only [rank, hidle, hdrop, List.length_cons, Nat.succ_mul]
    split <;> omega
  | cut ahead start c hcutting hlt hc _ =>
    have hlt' := (List.getElem?_eq_some_iff.1 hc).1
    simp only [rank, hcutting, hdrop, if_pos hlt]
    split <;> omega
  | rest ahead start hcutting hlt _ =>
    simp only [rank, hcutting, hdrop, if_pos hlt, Nat.lt_irrefl, if_false]
    omega
  | next ahead start hcutting hend =>
    simp only [rank, hcutting, hdrop, if_neg (Nat.not_lt.2 hend)]
    omega

/-- The scan after `n` steps, or at its end if that comes before. -/
def run (l m : List Interval) : Nat → Scan → Scan
  | 0, s => s
  | n + 1, s => (s.step? l m).elim s (run l m n)

theorem remaining_of_step?_eq_none (h : s.step? l m = none) : s.remaining l m = [] := by
  rw [remaining, drop_eq_nil (Option.map_eq_none_iff.1 h)]
  cases s.cutting <;> rfl

theorem builder_of_step?_eq_none (h : s.step? l m = none) :
    s.builder = s.builder.addAll (s.remaining l m) := by
  rw [remaining_of_step?_eq_none h]
  rfl

theorem run_ends {n : Nat} (hn : s.rank l m ≤ n) :
    (run l m n s).step? l m = none ∧
      (run l m n s).builder = s.builder.addAll (s.remaining l m) := by
  induction n generalizing s with
  | zero =>
    cases hstep : s.step? l m with
    | none => exact ⟨hstep, builder_of_step?_eq_none hstep⟩
    | some t =>
      obtain ⟨i, hi, ht⟩ := step_of_step? hstep
      have hrank := rank_step hi ht
      omega
  | succ n ih =>
    rw [run]
    cases hstep : s.step? l m with
    | none => exact ⟨hstep, builder_of_step?_eq_none hstep⟩
    | some t =>
      obtain ⟨i, hi, ht⟩ := step_of_step? hstep
      have hrank := rank_step hi ht
      rw [← addAll_step hi ht]
      exact ih (by omega)

end Scan
end Interval

namespace RowSet

open TickingTable.Interval

/-- The scan for a difference ends, whatever intervals there are, and then it has built the
difference. The members of that are those of the first set that are not in the second one. -/
theorem difference_scanned (r s : RowSet) :
    (∃ n, n ≤ r.intervals.length * (2 * s.intervals.length + 3) + s.intervals.length ∧
      (Scan.run r.intervals s.intervals n .initial).step? r.intervals s.intervals = none ∧
      (Scan.run r.intervals s.intervals n .initial).builder.build = r.difference s) ∧
    ∀ k, k ∈ r.difference s ↔ k ∈ r ∧ ¬ k ∈ s := by
  have hrank : Scan.initial.rank r.intervals s.intervals ≤
      r.intervals.length * (2 * s.intervals.length + 3) + s.intervals.length := Nat.le_refl _
  obtain ⟨hend, hbuilt⟩ := Scan.run_ends hrank
  refine ⟨⟨_, Nat.le_refl _, hend, ?_⟩, fun k => mem_difference⟩
  have hall : Scan.initial.remaining r.intervals s.intervals =
      Interval.difference r.intervals s.intervals := Scan.remaining_of_none rfl
  rw [hbuilt, hall]
  rfl

end RowSet
end TickingTable
