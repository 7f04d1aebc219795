import Mathlib
import TickingTable.Proofs.Wire.Request
import TickingTable.Ticket

/-! Hexadecimal text is read back, and the text of a ticket tells it from all others. -/

namespace TickingTable

namespace Hex

variable {n : Nat} {l : List UInt8}

theorem digitValue?_digit (h : n < 16) : digitValue? (digit n) = some n := by
  have hall : ∀ n : Fin 16, digitValue? (digit n) = some n.val := by decide
  exact hall ⟨n, h⟩

theorem byteDigits_eq (b : UInt8) :
    byteDigits b = [digit (b.toNat / 16), digit (b.toNat % 16)] := by
  have hhigh : b.toNat / 16 % 16 = b.toNat / 16 := by
    have := b.toNat_lt
    omega
  simp [byteDigits, digits, hhigh]

theorem charsToBytes?_flatMap (l : List UInt8) : charsToBytes? (l.flatMap byteDigits) = some l := by
  induction l with
  | nil => rfl
  | cons b l ih =>
    have hlt := b.toNat_lt
    have hhigh : digitValue? (digit (b.toNat / 16)) = some (b.toNat / 16) :=
      digitValue?_digit (by omega)
    have hlow : digitValue? (digit (b.toNat % 16)) = some (b.toNat % 16) :=
      digitValue?_digit (by omega)
    have hback : 16 * (b.toNat / 16) + b.toNat % 16 = b.toNat := by omega
    simp only [List.flatMap_cons, byteDigits_eq, List.cons_append, List.nil_append, charsToBytes?,
      hhigh, hlow, ih, Option.bind_some, bind, pure, hback, UInt8.ofNat_toNat]

theorem toBytes?_ofBytes (l : List UInt8) : toBytes? (ofBytes l) = some l := by
  rw [toBytes?, ofBytes, String.toList_ofList, charsToBytes?_flatMap]

end Hex

namespace Ticket

variable {s t : Ticket} {id : Int32}

/-- Four bytes are the two's complement of the one number that they are read as. -/
theorem toInt32_decode_eq {l : List UInt8} (hl : l.length = 4) :
    (UInt32.ofNat (LittleEndian.decode l)).toInt32 = id ↔
      l = LittleEndian.encode 4 id.toUInt32.toNat := by
  obtain ⟨x, rfl⟩ := LittleEndian.exists_encode_eq hl
  rw [LittleEndian.decode_encode x.toNat_lt, UInt32.ofNat_toNat]
  constructor
  · rintro rfl
    rw [UInt32.toUInt32_toInt32]
  · intro h
    have hx : x = id.toUInt32 :=
      UInt32.toNat_inj.1 (LittleEndian.encode_inj x.toNat_lt id.toUInt32.toNat_lt h)
    rw [hx, Int32.toInt32_toUInt32]

theorem exportId?_eq_some : t.exportId? = some id ↔ t = ofExport id := by
  obtain ⟨bytes⟩ := t
  have hlength := LittleEndian.length_encode 4 id.toUInt32.toNat
  unfold exportId? ofExport
  simp only [mk.injEq]
  split
  · next mark a b c d =>
    by_cases hmark : mark = exportMark
    · rw [if_pos hmark, Option.some.injEq, toInt32_decode_eq rfl, hmark, List.cons.injEq]
      simp
    · rw [if_neg hmark, List.cons.injEq]
      simp [hmark]
  · next hother =>
    constructor
    · rintro ⟨⟩
    · rintro rfl
      obtain ⟨a, b, c, d, hfour⟩ := List.length_eq_four.1 hlength
      exact absurd (by rw [hfour]) (hother exportMark a b c d)

/-- The second letter of the text of an export is no digit. -/
theorem toBytes?_export (number : String) : Hex.toBytes? ("export/" ++ number) = none := by
  rw [Hex.toBytes?, String.toList_append]
  rfl

/-- The text of a ticket says whether it is one of an export, and if not which bytes it has. -/
theorem toBytes?_text (t : Ticket) :
    Hex.toBytes? t.text = if t.exportId?.isSome then none else some t.bytes := by
  unfold text
  cases t.exportId? with
  | some id => exact toBytes?_export _
  | none => exact Hex.toBytes?_ofBytes t.bytes

theorem text_ofExport_inj {id' : Int32} (h : (ofExport id).text = (ofExport id').text) :
    id = id' := by
  have hid : (ofExport id).exportId? = some id := exportId?_eq_some.2 rfl
  have hid' : (ofExport id').exportId? = some id' := exportId?_eq_some.2 rfl
  simp only [text, hid, hid', String.append_right_inj] at h
  exact Int32.toInt_inj.1 (Int.repr_inj.1 h)

theorem text_inj : s.text = t.text ↔ s = t := by
  constructor
  · intro h
    have hbytes := congrArg Hex.toBytes? h
    rw [toBytes?_text, toBytes?_text] at hbytes
    -- Read as hexadecimal digits, texts of the two kinds differ, so that both are of one kind.
    cases hs : s.exportId? with
    | some id =>
      cases ht : t.exportId? with
      | some id' =>
        obtain rfl := exportId?_eq_some.1 hs
        obtain rfl := exportId?_eq_some.1 ht
        rw [text_ofExport_inj h]
      | none => simp [hs, ht] at hbytes
    | none =>
      cases ht : t.exportId? with
      | some id' => simp [hs, ht] at hbytes
      | none =>
        obtain ⟨_⟩ := s
        obtain ⟨_⟩ := t
        simpa [hs, ht] using hbytes
  · rintro rfl
    rfl

/-- Tickets have the same text just if they have the same bytes, and a ticket is taken for export
number `id` just if it is the ticket of that export. -/
theorem text_identifies :
    (∀ a b : List UInt8, (Ticket.mk a).text = (Ticket.mk b).text ↔ a = b) ∧
    ∀ (t : Ticket) (id : Int32), t.exportId? = some id ↔ t = ofExport id := by
  refine ⟨fun a b => ?_, fun t id => exportId?_eq_some⟩
  rw [text_inj, mk.injEq]

end Ticket
end TickingTable
