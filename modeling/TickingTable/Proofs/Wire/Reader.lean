import Mathlib.Data.List.Basic
import Mathlib.Algebra.Order.Ring.Nat
import TickingTable.Wire.Reader

/-! What a reader takes from the front of its input, told by the way such bytes are written. -/

namespace TickingTable

namespace LittleEndian

@[simp] theorem length_encode (width n : Nat) : (encode width n).length = width := by
  induction width generalizing n with
  | zero => rfl
  | succ width ih => rw [encode, List.length_cons, ih]

theorem decode_lt (l : List UInt8) : decode l < 256 ^ l.length := by
  induction l with
  | nil => simp [decode]
  | cons b l ih =>
    have hb := b.toNat_lt
    rw [decode, List.length_cons, Nat.pow_succ]
    omega

theorem decode_encode {width n : Nat} (h : n < 256 ^ width) : decode (encode width n) = n := by
  induction width generalizing n with
  | zero =>
    rw [Nat.pow_zero] at h
    rw [encode, decode]
    omega
  | succ width ih =>
    rw [Nat.pow_succ] at h
    have hbyte : (UInt8.ofNat (n % 256)).toNat = n % 256 := by simp
    rw [encode, decode, hbyte, ih (by omega)]
    omega

theorem encode_decode (l : List UInt8) : encode l.length (decode l) = l := by
  induction l with
  | nil => rfl
  | cons b l ih =>
    have hb := b.toNat_lt
    have hlow : (b.toNat + 256 * decode l) % 256 = b.toNat := by omega
    have hhigh : (b.toNat + 256 * decode l) / 256 = decode l := by omega
    rw [List.length_cons, decode, encode, hlow, hhigh, ih, UInt8.ofNat_toNat]

theorem encode_inj {width n k : Nat} (hn : n < 256 ^ width) (hk : k < 256 ^ width)
    (h : encode width n = encode width k) : n = k := by
  rw [← decode_encode hn, h, decode_encode hk]

end LittleEndian

namespace Wire

namespace Reader

section Steps

variable {α β : Type} {reader : Reader α} {next : α → Reader β} {input rest : List UInt8}
  {a a' : α} {b : β}

theorem pure_eq_ok : (pure a : Reader α) input = .ok (a', rest) ↔ a = a' ∧ input = rest := by
  constructor
  · intro h
    cases h
    exact ⟨rfl, rfl⟩
  · rintro ⟨rfl, rfl⟩
    rfl

theorem bind_eq_ok : (reader >>= next) input = .ok (b, rest) ↔
    ∃ a mid, reader input = .ok (a, mid) ∧ next a mid = .ok (b, rest) := by
  simp only [bind, StateT.bind, Except.bind]
  cases hread : reader input with
  | error e => simp
  | ok x =>
    constructor
    · intro h
      exact ⟨x.1, x.2, rfl, h⟩
    · rintro ⟨a, mid, hx, h⟩
      cases hx
      exact h

/-- A check is passed just if its condition does not hold. -/
theorem ite_eq_ok {c : Prop} [Decidable c] {fails : Reader α} (hfails : fails input ≠ .ok (a, rest)) :
    (if c then fails else reader) input = .ok (a, rest) ↔ ¬ c ∧ reader input = .ok (a, rest) := by
  by_cases hc : c
  · rw [if_pos hc]
    constructor
    · intro h
      exact absurd h hfails
    · rintro ⟨hn, _⟩
      exact absurd hc hn
  · rw [if_neg hc]
    exact (and_iff_right hc).symm

theorem unless_eq_ok {c : Prop} [Decidable c] {e : Error} {next : Unit → Reader β} :
    (if c then throw e >>= next else next ()) input = .ok (b, rest) ↔
      ¬ c ∧ next () input = .ok (b, rest) := by
  apply ite_eq_ok
  intro h
  cases h

theorem check_eq_ok {c : Prop} [Decidable c] {e : Error} {u : Unit} :
    (if c then throw e else pure () : Reader Unit) input = .ok (u, rest) ↔ ¬ c ∧ input = rest := by
  rw [ite_eq_ok, pure_eq_ok]
  · simp
  · intro h
    cases h

end Steps

variable {input rest l : List UInt8} {n : Nat}

theorem splitExact_eq_some :
    splitExact n input = some (l, rest) ↔ l.length = n ∧ input = l ++ rest := by
  induction n generalizing input rest l with
  | zero =>
    rw [splitExact, List.length_eq_zero_iff]
    constructor
    · intro h
      cases h
      exact ⟨rfl, rfl⟩
    · rintro ⟨rfl, rfl⟩
      rfl
  | succ n ih =>
    cases input with
    | nil => cases l <;> simp [splitExact]
    | cons b input =>
      constructor
      · intro h
        obtain ⟨⟨front, back⟩, hsplit, he⟩ := Option.map_eq_some_iff.1 h
        cases he
        obtain ⟨rfl, rfl⟩ := ih.1 hsplit
        exact ⟨rfl, rfl⟩
      · rintro ⟨hlen, hinput⟩
        cases l with
        | nil => cases hlen
        | cons b' l =>
          obtain ⟨rfl, htail⟩ := List.cons.inj hinput
          rw [splitExact, ih.2 ⟨Nat.succ.inj hlen, htail⟩]
          rfl

theorem bytes_eq_ok : bytes n input = .ok (l, rest) ↔ l.length = n ∧ input = l ++ rest := by
  rw [← splitExact_eq_some]
  unfold bytes
  cases hsplit : splitExact n input with
  | none => simp
  | some split => simp

theorem number_eq_ok {width : Nat} : number width input = .ok (n, rest) ↔
    n < 256 ^ width ∧ input = LittleEndian.encode width n ++ rest := by
  simp only [number, bind_eq_ok, bytes_eq_ok, pure_eq_ok]
  constructor
  · rintro ⟨l, mid, ⟨rfl, rfl⟩, rfl, rfl⟩
    exact ⟨LittleEndian.decode_lt l, by rw [LittleEndian.encode_decode]⟩
  · rintro ⟨hn, rfl⟩
    exact ⟨_, _, ⟨LittleEndian.length_encode width n, rfl⟩, LittleEndian.decode_encode hn, rfl⟩

theorem u8_eq_ok {x : UInt8} : u8 input = .ok (x, rest) ↔ input = x :: rest := by
  simp only [u8, bind_eq_ok, number_eq_ok, pure_eq_ok, LittleEndian.encode]
  constructor
  · rintro ⟨n, mid, ⟨hn, rfl⟩, rfl, rfl⟩
    have hbyte : n % 256 = n := Nat.mod_eq_of_lt hn
    rw [hbyte]
    rfl
  · rintro rfl
    exact ⟨x.toNat, rest, ⟨x.toNat_lt, by simp⟩, by simp, rfl⟩

theorem i64_eq_ok {x : Int64} : i64 input = .ok (x, rest) ↔
    input = LittleEndian.encode 8 x.toUInt64.toNat ++ rest := by
  simp only [i64, u64, bind_eq_ok, number_eq_ok, pure_eq_ok]
  constructor
  · rintro ⟨n, mid, ⟨hn, rfl⟩, rfl, rfl⟩
    have hback : (UInt64.ofNat n).toNat = n := UInt64.toNat_ofNat_of_lt hn
    rw [UInt64.toUInt64_toInt64, hback]
  · rintro rfl
    exact ⟨x.toUInt64.toNat, rest, ⟨x.toUInt64.toNat_lt, rfl⟩, by simp, rfl⟩

theorem count_eq_ok {size : Nat} : count size input = .ok (n, rest) ↔
    n < 256 ^ 4 ∧ input = LittleEndian.encode 4 n ++ rest ∧ n * size ≤ rest.length := by
  simp only [count, u32, bind_eq_ok, number_eq_ok, pure_eq_ok]
  constructor
  · rintro ⟨k, mid, ⟨hk, rfl⟩, u, mid', hreq, rfl, rfl⟩
    unfold require at hreq
    split at hreq
    · cases hreq
    · cases hreq
      exact ⟨hk, rfl, by omega⟩
  · rintro ⟨hn, rfl, hlen⟩
    refine ⟨n, rest, ⟨hn, rfl⟩, (), rest, ?_, rfl, rfl⟩
    rw [require, if_neg (Nat.not_lt.2 hlen)]

theorem finish_eq_ok {u : Unit} : finish input = .ok (u, rest) ↔ input = [] ∧ rest = [] := by
  unfold finish
  cases input with
  | nil => simp [eq_comm]
  | cons b input => simp

theorem runAll_eq_ok {α : Type} {reader : Reader α} {a : α} :
    reader.runAll input = .ok a ↔ reader input = .ok (a, []) := by
  have hall : ∀ {a rest}, (do let a ← reader; finish; return a : Reader α) input = .ok (a, rest) ↔
      reader input = .ok (a, []) ∧ rest = [] := by
    intro a rest
    simp only [bind_eq_ok, finish_eq_ok, pure_eq_ok]
    constructor
    · rintro ⟨a, mid, hread, u, mid', ⟨rfl, rfl⟩, rfl, rfl⟩
      exact ⟨hread, rfl⟩
    · rintro ⟨hread, rfl⟩
      exact ⟨a, [], hread, (), [], ⟨rfl, rfl⟩, rfl, rfl⟩
  unfold runAll
  split
  · next a' rest hread =>
    obtain ⟨hread, -⟩ := hall.1 hread
    simp [hread]
  · next e hread =>
    constructor
    · intro h
      cases h
    · intro h
      rw [hall.2 ⟨h, rfl⟩] at hread
      cases hread

end Reader

/-- A reader takes from the front of its input just what `write` can put there, and makes `value`
of it. -/
def Reads {α ω : Type} (reader : Reader α) (write : ω → List UInt8) (value : ω → α) : Prop :=
  ∀ input a rest, reader input = .ok (a, rest) ↔ ∃ w, value w = a ∧ input = write w ++ rest

/-- The end of what `write` puts somewhere can be told from the bytes. -/
def SelfDelimiting {ω : Type} (write : ω → List UInt8) : Prop :=
  ∀ v w r s, write v ++ r = write w ++ s → v = w ∧ r = s

/-- A list whose length fits into the four bytes of a count. -/
structure Counted (ω : Type) where
  list : List ω
  length_lt : list.length < 2 ^ 32

/-- The length of the list and then its elements. -/
def Counted.bytes {ω : Type} (write : ω → List UInt8) (l : Counted ω) : List UInt8 :=
  LittleEndian.encode 4 l.list.length ++ l.list.flatMap write

section Lists

variable {α ω : Type} {item : Reader α} {write : ω → List UInt8} {value : ω → α}
  {input rest : List UInt8} {n size : Nat}

theorem Reads.many_eq_ok (h : Reads item write value) {l : List α} :
    Reader.many item n input = .ok (l, rest) ↔
      ∃ ws : List ω, ws.length = n ∧ ws.map value = l ∧ input = ws.flatMap write ++ rest := by
  induction n generalizing input rest l with
  | zero =>
    simp only [Reader.many, Reader.pure_eq_ok, List.length_eq_zero_iff]
    constructor
    · rintro ⟨rfl, rfl⟩
      exact ⟨[], rfl, rfl, rfl⟩
    · rintro ⟨ws, rfl, rfl, rfl⟩
      exact ⟨rfl, rfl⟩
  | succ n ih =>
    simp only [Reader.many, Reader.bind_eq_ok, Reader.pure_eq_ok, h _ _ _, ih]
    constructor
    · rintro ⟨_, _, ⟨w, rfl, rfl⟩, _, _, ⟨ws, rfl, rfl, rfl⟩, rfl, rfl⟩
      exact ⟨w :: ws, rfl, rfl, by rw [List.flatMap_cons, List.append_assoc]⟩
    · rintro ⟨ws, hn, rfl, rfl⟩
      cases ws with
      | nil => cases hn
      | cons w ws =>
        refine ⟨_, _, ⟨w, rfl, ?_⟩, _, _, ⟨ws, Nat.succ.inj hn, rfl, rfl⟩, rfl, rfl⟩
        rw [List.flatMap_cons, List.append_assoc]

theorem length_mul_le_flatMap (hsize : ∀ w, size ≤ (write w).length) (ws : List ω) :
    ws.length * size ≤ (ws.flatMap write).length := by
  induction ws with
  | nil => simp
  | cons w ws ih =>
    have hw := hsize w
    rw [List.length_cons, List.flatMap_cons, List.length_append, Nat.succ_mul]
    omega

theorem Reads.counted (h : Reads item write value) (hsize : ∀ w, size ≤ (write w).length) :
    Reads (Reader.count size >>= Reader.many item) (Counted.bytes write)
      fun l => l.list.map value := by
  intro input l rest
  simp only [Reader.bind_eq_ok, Reader.count_eq_ok, h.many_eq_ok]
  constructor
  · rintro ⟨_, _, ⟨hn, rfl, _⟩, ws, rfl, rfl, rfl⟩
    exact ⟨⟨ws, hn⟩, rfl, by rw [Counted.bytes, List.append_assoc]⟩
  · rintro ⟨⟨ws, hn⟩, rfl, rfl⟩
    refine ⟨_, _, ⟨hn, by rw [Counted.bytes, List.append_assoc], ?_⟩, ws, rfl, rfl, rfl⟩
    have hlen := length_mul_le_flatMap hsize ws
    rw [List.length_append]
    exact Nat.le_trans hlen (Nat.le_add_right _ _)

theorem SelfDelimiting.injective (h : SelfDelimiting write) : Function.Injective write := by
  intro v w he
  exact (h v w [] [] (by rw [he])).1

theorem selfDelimiting_of_length (hlen : ∀ v w, (write v).length = (write w).length)
    (hinj : Function.Injective write) : SelfDelimiting write := by
  intro v w r s he
  obtain ⟨hwrite, hrest⟩ := List.append_inj he (hlen v w)
  exact ⟨hinj hwrite, hrest⟩

theorem SelfDelimiting.flatMap (h : SelfDelimiting write) {v w : List ω} {r s : List UInt8}
    (hlen : v.length = w.length) (he : v.flatMap write ++ r = w.flatMap write ++ s) :
    v = w ∧ r = s := by
  induction v generalizing w with
  | nil =>
    obtain rfl := List.length_eq_zero_iff.1 hlen.symm
    exact ⟨rfl, he⟩
  | cons a v ih =>
    cases w with
    | nil => cases hlen
    | cons b w =>
      simp only [List.flatMap_cons, List.append_assoc] at he
      obtain ⟨rfl, htail⟩ := h _ _ _ _ he
      obtain ⟨rfl, hrest⟩ := ih (Nat.succ.inj hlen) htail
      exact ⟨rfl, hrest⟩

theorem SelfDelimiting.counted (h : SelfDelimiting write) :
    SelfDelimiting (Counted.bytes write) := by
  rintro ⟨v, hv⟩ ⟨w, hw⟩ r s he
  simp only [Counted.bytes, List.append_assoc] at he
  obtain ⟨hcount, htail⟩ := List.append_inj he (by simp)
  obtain ⟨rfl, hrest⟩ := h.flatMap (LittleEndian.encode_inj hv hw hcount) htail
  exact ⟨rfl, hrest⟩

end Lists

end Wire
end TickingTable
