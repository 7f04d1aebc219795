import TickingTable.Proofs.Wire.Incremental
import TickingTable.Wire.Request

/-! The grammar of subscription requests, and that a request is read as it was written. -/

namespace TickingTable

theorem exists_split {l : List UInt8} (m n : Nat) (h : l.length = m + n) :
    ∃ front back, l = front ++ back ∧ front.length = m ∧ back.length = n :=
  ⟨l.take m, l.drop m, (List.take_append_drop m l).symm, by simp [h], by simp [h]⟩

namespace LittleEndian

/-- Any four bytes are those of a number. -/
theorem exists_encode_eq {l : List UInt8} (h : l.length = 4) :
    ∃ x : UInt32, l = encode 4 x.toNat := by
  have hlt : decode l < 2 ^ 32 := by
    have hlt := decode_lt l
    rwa [h] at hlt
  have hback : (UInt32.ofNat (decode l)).toNat = decode l :=
    UInt32.toNat_ofNat_of_lt hlt
  refine ⟨UInt32.ofNat (decode l), ?_⟩
  rw [hback, ← h, encode_decode]

end LittleEndian

namespace SubscriptionRequest

open Wire

variable {input : List UInt8} {r : SubscriptionRequest}

/-- What the bytes of a request say, the flags with all their bits. -/
structure Written where
  ticket : Counted UInt8
  flags : UInt8
  interval : UInt32
  batch : UInt32
  size : UInt32

namespace Written

def bytes (w : Written) : List UInt8 :=
  encodeHeader messageType ++ LittleEndian.encode 4 w.ticket.list.length ++ w.ticket.list ++
    [w.flags] ++ LittleEndian.encode 4 w.interval.toNat ++ LittleEndian.encode 4 w.batch.toNat ++
    LittleEndian.encode 4 w.size.toNat

def request (w : Written) : SubscriptionRequest :=
  ⟨⟨w.ticket.list⟩, ⟨w.flags &&& 1 ≠ 0, w.interval, w.batch, w.size⟩⟩

end Written

theorem reads_reader : Reads reader Written.bytes Written.request := by
  intro input r rest
  unfold reader
  simp only [Reader.u32, Reader.bind_eq_ok, readHeader_eq_ok, Reader.number_eq_ok,
    Reader.bytes_eq_ok, Reader.u8_eq_ok, Reader.pure_eq_ok]
  constructor
  · rintro ⟨_, _, rfl, length, _, ⟨hlength, rfl⟩, ticket, _, ⟨rfl, rfl⟩, flags, _, rfl,
      interval, _, ⟨hinterval, rfl⟩, batch, _, ⟨hbatch, rfl⟩, size, _, ⟨hsize, rfl⟩, rfl, rfl⟩
    have hback : ∀ {n : Nat}, n < 256 ^ 4 → (UInt32.ofNat n).toNat = n := UInt32.toNat_ofNat_of_lt
    refine ⟨⟨⟨ticket, hlength⟩, flags, UInt32.ofNat interval, UInt32.ofNat batch,
      UInt32.ofNat size⟩, rfl, ?_⟩
    simp only [Written.bytes, hback hinterval, hback hbatch, hback hsize, List.append_assoc,
      List.cons_append, List.nil_append]
  · rintro ⟨w, rfl, rfl⟩
    refine ⟨(), _, ?_, w.ticket.list.length, _, ⟨w.ticket.length_lt, rfl⟩, w.ticket.list, _,
      ⟨rfl, rfl⟩, w.flags, _, rfl, w.interval.toNat, _, ⟨w.interval.toNat_lt, rfl⟩, w.batch.toNat,
      _, ⟨w.batch.toNat_lt, rfl⟩, w.size.toNat, rest, ⟨w.size.toNat_lt, rfl⟩, ?_, rfl⟩
    · simp only [Written.bytes, List.append_assoc, List.cons_append, List.nil_append]
    · simp only [Written.request, UInt32.ofNat_toNat]

theorem decode_eq_ok : decode input = .ok r ↔ ∃ w : Written, w.request = r ∧ input = w.bytes := by
  rw [decode, Reader.runAll_eq_ok, reads_reader]
  simp only [List.append_nil]

/-- A ticket whose length fits into its four bytes is read back, and so are all options. -/
theorem decode_encode (h : r.ticket.bytes.length < 2 ^ 32) : decode r.encode = .ok r := by
  have hflags : decide ((if r.options.sentinelNulls then (1 : UInt8) else 0) &&& 1 ≠ 0) =
      r.options.sentinelNulls := by
    cases r.options.sentinelNulls <;> decide
  refine decode_eq_ok.2 ⟨⟨⟨r.ticket.bytes, h⟩, if r.options.sentinelNulls then 1 else 0,
    r.options.minUpdateInterval, r.options.batchSize, r.options.maxMessageSize⟩, ?_, rfl⟩
  rw [Written.request, hflags]

theorem lowestBit_eq (flags : UInt8) : (if flags &&& 1 ≠ 0 then 1 else 0) = flags &&& 1 := by
  have hbit : (flags &&& 1).toNat = flags.toNat % 2 := by
    rw [UInt8.toNat_and]
    exact Nat.and_one_is_mod _
  split
  · next hne =>
    have hodd : (flags &&& 1).toNat ≠ 0 := fun h => hne (UInt8.toNat_inj.1 h)
    apply UInt8.toNat_inj.1
    rw [UInt8.toNat_one]
    omega
  · next hnot => exact (not_not.1 hnot).symm

/-- The magic number, the type of requests, the length `n` of the ticket and, after these nine bytes,
as many bytes as the ticket, the flags and three numbers take. -/
def Framed (n : Nat) (b : List UInt8) : Prop :=
  n < 2 ^ 32 ∧ ∃ body : List UInt8, body.length = n + 13 ∧
    b = LittleEndian.encode 4 magic ++ [4] ++ LittleEndian.encode 4 n ++ body

namespace Written

variable {n : Nat}

theorem framed (w : Written) : Framed w.ticket.list.length w.bytes := by
  refine ⟨w.ticket.length_lt, w.ticket.list ++ [w.flags] ++ LittleEndian.encode 4 w.interval.toNat ++
    LittleEndian.encode 4 w.batch.toNat ++ LittleEndian.encode 4 w.size.toNat, ?_, ?_⟩
  · simp
  · simp only [bytes, encodeHeader, exchangeCommand, messageType, List.append_assoc]

/-- After the length there is no byte that a request could not have. -/
theorem exists_of_framed (h : Framed n input) : ∃ w : Written, input = w.bytes := by
  obtain ⟨hn, body, hlength, rfl⟩ := h
  obtain ⟨ticket, options, rfl, rfl, hoptions⟩ := exists_split n 13 hlength
  obtain ⟨flags, numbers, rfl, hflags, hnumbers⟩ := exists_split 1 12 hoptions
  obtain ⟨flags, rfl⟩ := List.length_eq_one_iff.1 hflags
  obtain ⟨interval, limits, rfl, hinterval, hlimits⟩ := exists_split 4 8 hnumbers
  obtain ⟨batch, size, rfl, hbatch, hsize⟩ := exists_split 4 4 hlimits
  obtain ⟨interval, rfl⟩ := LittleEndian.exists_encode_eq hinterval
  obtain ⟨batch, rfl⟩ := LittleEndian.exists_encode_eq hbatch
  obtain ⟨size, rfl⟩ := LittleEndian.exists_encode_eq hsize
  refine ⟨⟨⟨ticket, hn⟩, flags, interval, batch, size⟩, ?_⟩
  simp only [bytes, encodeHeader, exchangeCommand, messageType, List.append_assoc]

theorem modify_bytes (w : Written) (f : UInt8 → UInt8) :
    w.bytes.modify (9 + w.ticket.list.length) f = { w with flags := f w.flags }.bytes := by
  have hmodify : ∀ front back : List UInt8, (front ++ ([w.flags] ++ back)).modify front.length f =
      front ++ ([f w.flags] ++ back) := by
    intro front back
    simp [List.modify_eq_take_cons_drop]
  have hlength : (encodeHeader messageType ++ LittleEndian.encode 4 w.ticket.list.length ++
      w.ticket.list).length = 9 + w.ticket.list.length := by
    simp only [encodeHeader, exchangeCommand, List.length_append, LittleEndian.length_encode,
      List.length_singleton]
  rw [← hlength]
  simpa only [bytes, List.append_assoc] using hmodify (encodeHeader messageType ++
    LittleEndian.encode 4 w.ticket.list.length ++ w.ticket.list) _

theorem encode_request (w : Written) :
    w.request.encode = { w with flags := w.flags &&& 1 }.bytes := by
  have hflags : (if w.request.options.sentinelNulls then 1 else 0) = w.flags &&& 1 := by
    simp only [request, decide_eq_true_eq]
    exact lowestBit_eq w.flags
  rw [encode, hflags]
  rfl

end Written

theorem incremental_reader : Reader.Incremental reader := by
  refine .bind (incremental_readHeader messageType) fun _ => ?_
  refine .bind (Reader.incremental_number 4) fun length => ?_
  refine .bind (Reader.incremental_bytes length) fun ticket => ?_
  refine .bind Reader.incremental_u8 fun flags => ?_
  refine .bind (Reader.incremental_number 4) fun interval => ?_
  refine .bind (Reader.incremental_number 4) fun batch => ?_
  exact .bind (Reader.incremental_number 4) fun size => .pure _

/-- Requests are read as they were written. Just the bytes of the right number after the length of
a ticket can be read, no fewer and no more; and written again they differ in the spare bits of the
flags only, which are then clear. -/
theorem decodable_iff_framed :
    (∀ r : SubscriptionRequest, r.ticket.bytes.length < 2 ^ 32 → decode r.encode = .ok r) ∧
      ∀ b : List UInt8, ((∃ r, decode b = .ok r) ↔ ∃ n, Framed n b) ∧
        ∀ r, decode b = .ok r → Framed r.ticket.bytes.length b ∧
          r.encode = b.modify (9 + r.ticket.bytes.length) (· &&& 1) ∧ Whole decode b := by
  refine ⟨fun r hr => decode_encode hr, fun b => ⟨⟨?_, ?_⟩, ?_⟩⟩
  · rintro ⟨r, hr⟩
    obtain ⟨w, rfl, rfl⟩ := decode_eq_ok.1 hr
    exact ⟨_, w.framed⟩
  · rintro ⟨n, hn⟩
    obtain ⟨w, rfl⟩ := Written.exists_of_framed hn
    exact ⟨w.request, decode_eq_ok.2 ⟨w, rfl, rfl⟩⟩
  · intro r hr
    have hwhole : Whole decode b := incremental_reader.whole hr
    obtain ⟨w, rfl, rfl⟩ := decode_eq_ok.1 hr
    refine ⟨w.framed, ?_, hwhole⟩
    rw [w.encode_request]
    exact (w.modify_bytes (· &&& 1)).symm

/-- A request whose flags have all bits set. -/
def spare : Written := ⟨⟨[0x65, 3, 0, 0, 0], by decide⟩, 0xFF, 250, 4096, 1024⟩

theorem decodable_iff_framed_spare :
    Framed 5 spare.bytes ∧ decode spare.bytes = .ok spare.request ∧
      spare.request.encode = spare.bytes.modify 14 (· &&& 1) ∧
      spare.request.encode ≠ spare.bytes ∧ decode spare.request.encode = .ok spare.request ∧
      (∃ requested available, available < requested ∧
        decode (spare.bytes.take 12) = .error (.truncated requested available)) ∧
      decode (spare.bytes ++ [0]) = .error (.trailingBytes 1) := by
  have hread : decode spare.bytes = .ok spare.request := decode_eq_ok.2 ⟨spare, rfl, rfl⟩
  obtain ⟨hback, hbytes⟩ := decodable_iff_framed
  obtain ⟨hframed, hagain, hwhole⟩ := (hbytes spare.bytes).2 _ hread
  refine ⟨hframed, hread, hagain, by decide, hback _ (by decide),
    hwhole.truncated _ (List.take_prefix 12 _) (by decide), hwhole.trailing [0] (by decide)⟩

end SubscriptionRequest
end TickingTable
