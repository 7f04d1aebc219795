import Mathlib.Algebra.Order.Ring.Nat

/-! Steps one of which may fail, and lists that tell something of each column. -/

namespace TickingTable

section

variable {α β γ : Type}

theorem mem_zipWith {f : α → β → γ} {l : List α} {m : List β} {x : γ}
    (h : x ∈ List.zipWith f l m) : ∃ a ∈ l, ∃ b ∈ m, f a b = x := by
  obtain ⟨i, hi⟩ := List.mem_iff_getElem?.1 h
  obtain ⟨a, b, ha, hb, rfl⟩ := List.getElem?_zipWith_eq_some.1 hi
  exact ⟨a, List.mem_of_getElem? ha, b, List.mem_of_getElem? hb, rfl⟩

theorem zipWith_eq_left {f : α → β → α} {l : List α} {m : List β} (hl : l.length ≤ m.length)
    (hf : ∀ a ∈ l, ∀ b ∈ m, f a b = a) : List.zipWith f l m = l := by
  apply List.ext_getElem
  · rw [List.length_zipWith, Nat.min_eq_left hl]
  · intro i hi hi'
    rw [List.getElem_zipWith]
    exact hf _ (List.getElem_mem _) _ (List.getElem_mem _)

theorem zipWith_eq_right {f : α → β → β} {l : List α} {m : List β} (hl : m.length ≤ l.length)
    (hf : ∀ a ∈ l, ∀ b ∈ m, f a b = b) : List.zipWith f l m = m := by
  rw [List.zipWith_comm]
  exact zipWith_eq_left hl fun b hb a ha => hf a ha b hb

theorem bind_eq_ok {ε : Type} {x : Except ε α} {g : α → Except ε β} {b : β} :
    x >>= g = .ok b ↔ ∃ a, x = .ok a ∧ g a = .ok b := by
  cases x with
  | error e => simp [bind, Except.bind]
  | ok a => simp [bind, Except.bind]

theorem bind_eq_error {ε : Type} {x : Except ε α} {g : α → Except ε β} {e : ε} :
    x >>= g = .error e ↔ x = .error e ∨ ∃ a, x = .ok a ∧ g a = .error e := by
  cases x with
  | error e => simp [bind, Except.bind]
  | ok a => simp [bind, Except.bind]

theorem map_eq_error {ε : Type} {x : Except ε α} {g : α → β} {e : ε} :
    x.map g = .error e ↔ x = .error e := by
  cases x <;> simp [Except.map]

/-- If each element succeeds then so do all together. -/
theorem exists_mapM_eq_ok {δ ε : Type} {f : α → Except ε β} {g : β → δ} {h : α → δ}
    {l : List α} (hf : ∀ a ∈ l, ∃ b, f a = .ok b ∧ g b = h a) :
    ∃ bs, l.mapM f = .ok bs ∧ bs.map g = l.map h := by
  induction l with
  | nil => exact ⟨[], rfl, rfl⟩
  | cons a l ih =>
    obtain ⟨b, hb, hgb⟩ := hf a List.mem_cons_self
    obtain ⟨bs, hbs, hgbs⟩ := ih fun x hx => hf x (List.mem_cons_of_mem _ hx)
    refine ⟨b :: bs, ?_, by simp [hgb, hgbs]⟩
    rw [List.mapM_cons, hb, hbs]
    rfl

theorem mapM_eq_ok {ε : Type} {f : α → Except ε β} {l : List α} {bs : List β} :
    l.mapM f = .ok bs ↔ l.map f = bs.map .ok := by
  induction l generalizing bs with
  | nil => cases bs <;> simp [pure, Except.pure]
  | cons a l ih =>
    rw [List.mapM_cons, List.map_cons]
    cases ha : f a with
    | error e => cases bs <;> simp [bind, Except.bind]
    | ok b =>
      cases hl : l.mapM f with
      | error e =>
        have hno : ∀ bs : List β, l.map f ≠ bs.map .ok := by
          intro bs hbs
          rw [ih.2 hbs] at hl
          cases hl
        cases bs <;> simp [bind, Except.bind, hno]
      | ok cs =>
        have hcs := ih.1 hl
        cases bs with
        | nil => simp [bind, Except.bind, pure, Except.pure]
        | cons c bs => simp [bind, Except.bind, pure, Except.pure, ← ih, hl]

/-- The first element that fails makes all fail. -/
theorem mapM_eq_error {ε : Type} {f : α → Except ε β} {l : List α} {e : ε}
    (h : l.mapM f = .error e) :
    ∃ (i : Nat) (a : α), l[i]? = some a ∧ f a = .error e ∧
      ∀ j < i, ∀ x, l[j]? = some x → ∃ b, f x = .ok b := by
  induction l with
  | nil => cases h
  | cons a l ih =>
    rw [List.mapM_cons] at h
    cases ha : f a with
    | error e' =>
      rw [ha] at h
      cases h
      exact ⟨0, a, rfl, ha, fun j hj => absurd hj (Nat.not_lt_zero j)⟩
    | ok b =>
      cases hl : l.mapM f with
      | ok bs =>
        rw [ha, hl] at h
        cases h
      | error e' =>
        rw [ha, hl] at h
        cases h
        obtain ⟨i, x, hx, hfx, hbefore⟩ := ih hl
        refine ⟨i + 1, x, hx, hfx, ?_⟩
        intro j hj y hy
        cases j with
        | zero =>
          obtain rfl : a = y := by simpa using hy
          exact ⟨b, ha⟩
        | succ j => exact hbefore j (by omega) y hy

/-- A property of each column, of which three lists tell something at its index. -/
def Columnwise (P : α → β → γ → Prop) (l : List α) (m : List β) (n : List γ) : Prop :=
  ∀ (i : Nat) (a : α) (b : β) (c : γ), l[i]? = some a → m[i]? = some b → n[i]? = some c → P a b c

theorem columnwise_cons {P : α → β → γ → Prop} {a : α} {b : β} {c : γ} {l : List α} {m : List β}
    {n : List γ} : Columnwise P (a :: l) (b :: m) (c :: n) ↔ P a b c ∧ Columnwise P l m n := by
  constructor
  · intro h
    exact ⟨h 0 a b c rfl rfl rfl, fun i => h (i + 1)⟩
  · rintro ⟨hhead, htail⟩ i
    cases i with
    | zero => simpa using hhead
    | succ i => exact htail i

end

section

variable {α : Type} {n : Nat} {l m : List (List α)}

theorem zipWith_append_replicate (h : l.length = n) :
    List.zipWith (· ++ ·) l (List.replicate n []) = l := by
  apply zipWith_eq_left (by simp [h])
  intro a _ b hb
  rw [(List.mem_replicate.1 hb).2, List.append_nil]

theorem zipWith_replicate_append (h : l.length = n) :
    List.zipWith (· ++ ·) (List.replicate n []) l = l := by
  apply List.ext_getElem
  · simp [h]
  · intro i hi hi'
    simp

theorem zipWith_append_assoc (k l m : List (List α)) :
    List.zipWith (· ++ ·) (List.zipWith (· ++ ·) k l) m =
      List.zipWith (· ++ ·) k (List.zipWith (· ++ ·) l m) := by
  apply List.ext_getElem
  · simp [Nat.min_assoc]
  · intro i hi hi'
    simp

theorem map_take_zipWith (hn : ∀ x ∈ l, x.length = n) (hl : l.length = m.length) :
    (List.zipWith (· ++ ·) l m).map (List.take n) = l := by
  apply List.ext_getElem
  · simp [hl]
  · intro i hi hi'
    rw [List.getElem_map, List.getElem_zipWith, List.take_left' (hn _ (List.getElem_mem _))]

theorem map_drop_zipWith (hn : ∀ x ∈ l, x.length = n) (hl : l.length = m.length) :
    (List.zipWith (· ++ ·) l m).map (List.drop n) = m := by
  apply List.ext_getElem
  · simp [hl]
  · intro i hi hi'
    rw [List.getElem_map, List.getElem_zipWith, List.drop_left' (hn _ (List.getElem_mem _))]

end

end TickingTable
