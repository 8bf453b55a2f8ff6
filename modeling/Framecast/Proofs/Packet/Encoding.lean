/-
The wire form of a packet has one reading, and a packet has one wire form.

Every field of a packet fits the bytes its wire form gives it, so what was written is
read back.  The reader takes the fields apart one by one, and each of its checks says what
the writer would have put there: so what it accepts is the wire form of what it returns.
The reader and the writer are then inverse to each other between the valid packets and
the byte strings that are read at all, and what is refused can be told from the writer
alone.
-/
import Framecast.Packet.Encoding
import Framecast.Proofs.Packet.Fragments

namespace Framecast

theorem Channel.ofTag?_tag (c : Channel) : Channel.ofTag? c.tag = some c := by
  cases c <;> rfl

theorem Channel.tag_le (c : Channel) : c.tag ≤ 2 := by
  cases c <;> decide

/-- A byte stands for a channel only if it is the tag of the channel. -/
theorem Channel.eq_tag_of_ofTag? {t : UInt8} {c : Channel} (h : Channel.ofTag? t = some c) :
    t = c.tag := by
  unfold Channel.ofTag? at h
  split at h
  · simp only [Option.some.injEq] at h
    rw [← h]
    rfl
  · simp only [Option.some.injEq] at h
    rw [← h]
    rfl
  · simp only [Option.some.injEq] at h
    rw [← h]
    rfl
  · cases h

namespace Packet

theorem length_encode (p : Packet) : p.encode.length = p.size := by
  simp only [encode, List.length_append, Field.length_digits, size, headerSize]

/-! ### What was written is read back -/

theorem flag?_ite (b : Bool) : flag? ((if b then 1 else 0) % Field.limit 1) = some b := by
  cases b <;> rfl

/-- **A packet that a receiver accepts is read back as it was written.** -/
theorem decode?_encode {p : Packet} (h : p.Valid) : decode? p.encode = some p := by
  have htag : p.channel.tag.toNat % Field.limit 1 = p.channel.tag.toNat := by
    cases p.channel <;> rfl
  have hid : p.id.toUInt32.toNat % Field.limit 4 = p.id.toUInt32.toNat :=
    Nat.mod_eq_of_lt p.id.toUInt32.toNat_lt
  have hindex : p.index.toNat % Field.limit 2 = p.index.toNat := Nat.mod_eq_of_lt p.index.toNat_lt
  have hcount : p.count.toNat % Field.limit 2 = p.count.toNat := Nat.mod_eq_of_lt p.count.toNat_lt
  have hsize : p.payload.length % Field.limit 4 = p.payload.length := by
    have hle := h.2
    have hmax : maxPayload = 1285 := rfl
    have hlimit : Field.limit 4 = 4294967296 := rfl
    exact Nat.mod_eq_of_lt (by omega)
  unfold decode? encode
  simp only [List.append_assoc, Field.take?_digits_append, Option.bind_eq_bind, Option.bind_some,
    htag, hid, hindex, hcount, hsize, flag?_ite, UInt8.ofNat_toNat, UInt16.ofNat_toNat,
    UInt32.ofNat_toNat, Channel.ofTag?_tag, Int32.toInt32_toUInt32]
  exact if_pos ⟨h, trivial⟩

/-! ### What is read was written -/

theorem eq_ite_of_flag? {n : Nat} {b : Bool} (h : flag? n = some b) : n = if b then 1 else 0 := by
  unfold flag? at h
  split at h
  · simp only [Option.some.injEq] at h
    rw [← h]
    rfl
  · simp only [Option.some.injEq] at h
    rw [← h]
    rfl
  · cases h

/-- **What the reader accepts is the wire form of what it returns.** -/
theorem eq_encode_of_decode? {b : Bytes} {p : Packet} (h : decode? b = some p) :
    p.Valid ∧ b = p.encode := by
  simp only [decode?, Option.bind_eq_bind, Option.bind_eq_some_iff, Prod.exists,
    Field.take?_eq_some_iff, Option.ite_none_right_eq_some, Option.some.injEq] at h
  obtain ⟨tag, _, ⟨htag, rfl⟩, channel, hchannel, id, _, ⟨hid, rfl⟩, index, _, ⟨hindex, rfl⟩,
    count, _, ⟨hcount, rfl⟩, size, _, ⟨-, rfl⟩, flag, payload, ⟨-, rfl⟩, resent, hflag,
    ⟨hvalid, hlength⟩, rfl⟩ := h
  refine ⟨hvalid, ?_⟩
  have htag' : tag = channel.tag.toNat := by
    rw [← Channel.eq_tag_of_ofTag? hchannel, UInt8.toNat_ofNat_of_lt' htag]
  have hid' : (UInt32.ofNat id).toInt32.toUInt32.toNat = id := by
    rw [UInt32.toUInt32_toInt32, UInt32.toNat_ofNat_of_lt' hid]
  have hindex' : (UInt16.ofNat index).toNat = index := UInt16.toNat_ofNat_of_lt' hindex
  have hcount' : (UInt16.ofNat count).toNat = count := UInt16.toNat_ofNat_of_lt' hcount
  simp only [encode, htag', hid', hindex', hcount', hlength, eq_ite_of_flag? hflag,
    List.append_assoc]

/-- The reader accepts the wire forms of valid packets and nothing else. -/
theorem decode?_eq_some_iff {b : Bytes} {p : Packet} :
    decode? b = some p ↔ p.Valid ∧ b = p.encode := by
  constructor
  · exact eq_encode_of_decode?
  · rintro ⟨hvalid, rfl⟩
    exact decode?_encode hvalid

/-- What is the wire form of no valid packet is not read. -/
theorem decode?_eq_none_of_ne_encode {b : Bytes} (h : ∀ p : Packet, p.Valid → b ≠ p.encode) :
    decode? b = none := by
  rw [Option.eq_none_iff_forall_ne_some]
  intro p hp
  obtain ⟨hvalid, hb⟩ := decode?_eq_some_iff.mp hp
  exact h p hvalid hb

/-! ### Where the fields stand -/

theorem getElem?_tag_encode (p : Packet) : p.encode[0]? = some p.channel.tag := by
  simp [encode, Field.digits]

theorem index_encode (p : Packet) : (p.encode.drop 5).take 2 = Field.digits 2 p.index.toNat := by
  simp [encode, List.drop_append, List.drop_of_length_le]

theorem count_encode (p : Packet) : (p.encode.drop 7).take 2 = Field.digits 2 p.count.toNat := by
  simp [encode, List.drop_append, List.drop_of_length_le]

theorem size_encode (p : Packet) :
    (p.encode.drop 9).take 4 = Field.digits 4 p.payload.length := by
  simp [encode, List.drop_append, List.drop_of_length_le]

theorem getElem?_flag_encode (p : Packet) :
    p.encode[13]? = some (if p.resent then 1 else 0) := by
  cases h : p.resent <;> simp [encode, Field.digits, h]

/-- No wire form is the beginning of another one: the payload size tells where it ends. -/
theorem encode_eq_of_isPrefix {p q : Packet} (hp : p.Valid) (hq : q.Valid)
    (h : p.encode <+: q.encode) : p.encode = q.encode := by
  have hlong : 13 ≤ p.encode.length := by
    rw [length_encode, size, headerSize]
    omega
  have hsame : (p.encode.drop 9).take 4 = (q.encode.drop 9).take 4 := by
    obtain ⟨rest, hrest⟩ := h
    rw [← hrest, List.drop_append_of_le_length (by omega), List.take_append_of_le_length]
    rw [List.length_drop]
    omega
  have hvalue := congrArg Field.value hsame
  rw [size_encode, size_encode, Field.value_digits, Field.value_digits] at hvalue
  have hlimit : Field.limit 4 = 4294967296 := rfl
  have hpmax : p.payload.length ≤ 1285 := hp.2
  have hqmax : q.payload.length ≤ 1285 := hq.2
  have hlength : p.payload.length = q.payload.length := by
    rwa [hlimit, Nat.mod_eq_of_lt (by omega), Nat.mod_eq_of_lt (by omega)] at hvalue
  apply h.eq_of_length
  rw [length_encode, length_encode, size, size, hlength]

/-- A wire form that is cut short or added to is not read. -/
theorem decode?_eq_none_of_isPrefix {p : Packet} (hp : p.Valid) {c : Bytes} (hne : c ≠ p.encode)
    (h : c <+: p.encode ∨ p.encode <+: c) : decode? c = none := by
  apply decode?_eq_none_of_ne_encode
  rintro q hq rfl
  rcases h with hshort | hlong
  · exact hne (encode_eq_of_isPrefix hq hp hshort)
  · exact hne (encode_eq_of_isPrefix hp hq hlong).symm

/-- A first byte that is the tag of no channel is refused. -/
theorem decode?_eq_none_of_tag {b : Bytes} {tag : UInt8} (h : b[0]? = some tag) (htag : 2 < tag) :
    decode? b = none := by
  apply decode?_eq_none_of_ne_encode
  rintro p - rfl
  rw [getElem?_tag_encode, Option.some.injEq] at h
  have hle := UInt8.le_iff_toNat_le.mp p.channel.tag_le
  rw [← h, UInt8.lt_iff_toNat_lt] at htag
  omega

/-- A resent byte that is no truth value is refused. -/
theorem decode?_eq_none_of_flag {b : Bytes} {flag : UInt8} (h : b[13]? = some flag)
    (hflag : 1 < flag) : decode? b = none := by
  apply decode?_eq_none_of_ne_encode
  rintro p - rfl
  rw [getElem?_flag_encode, Option.some.injEq] at h
  rw [← h] at hflag
  cases hresent : p.resent with
  | false => simp [hresent] at hflag
  | true => simp [hresent] at hflag

/-- An index that is not below the count is refused. -/
theorem decode?_eq_none_of_index {b : Bytes}
    (h : Field.value ((b.drop 7).take 2) ≤ Field.value ((b.drop 5).take 2)) :
    decode? b = none := by
  apply decode?_eq_none_of_ne_encode
  rintro p hvalid rfl
  have hlimit : Field.limit 2 = 2 ^ 16 := rfl
  rw [index_encode, count_encode, Field.value_digits, Field.value_digits, hlimit,
    Nat.mod_eq_of_lt p.index.toNat_lt, Nat.mod_eq_of_lt p.count.toNat_lt] at h
  have hlt := UInt16.lt_iff_toNat_lt.mp hvalid.1
  omega

/--
**The reader is the inverse of the writer, and no more.**

* A byte string is read as a packet exactly if the packet is valid and the byte string is
  its wire form.
* So the wire form of a valid packet is read back, and no longer once it is cut short or
  added to.
* A first byte that is the tag of no channel, a resent byte above one and an index that is
  not below the count are refused, whatever else there is.
* No two byte strings are read as the same packet.
-/
theorem reads_wire_forms_only :
    (∀ (b : Bytes) (p : Packet), decode? b = some p ↔
      p.index < p.count ∧ p.payload.length ≤ maxPayload ∧ b = p.encode) ∧
    (∀ p : Packet, p.Valid → decode? p.encode = some p ∧
      ∀ c, c ≠ p.encode → (c <+: p.encode ∨ p.encode <+: c) → decode? c = none) ∧
    (∀ (b : Bytes) (tag : UInt8), b[0]? = some tag → 2 < tag → decode? b = none) ∧
    (∀ (b : Bytes) (flag : UInt8), b[13]? = some flag → 1 < flag → decode? b = none) ∧
    (∀ b : Bytes, Field.value ((b.drop 7).take 2) ≤ Field.value ((b.drop 5).take 2) →
      decode? b = none) ∧
    ∀ (b c : Bytes) (p : Packet), decode? b = some p → decode? c = some p → b = c := by
  refine ⟨?_, ?_, ?_, ?_, ?_, ?_⟩
  · intro b p
    rw [decode?_eq_some_iff, Valid, and_assoc]
  · intro p hp
    exact ⟨decode?_encode hp, fun c hne h => decode?_eq_none_of_isPrefix hp hne h⟩
  · intro b tag h htag
    exact decode?_eq_none_of_tag h htag
  · intro b flag h hflag
    exact decode?_eq_none_of_flag h hflag
  · intro b h
    exact decode?_eq_none_of_index h
  · intro b c p hb hc
    rw [(decode?_eq_some_iff.mp hb).2, (decode?_eq_some_iff.mp hc).2]

/-- An audio fragment of four bytes, sent again: its wire form, the same without its last
byte and with one more. -/
theorem reads_four_byte_fragment :
    decode? [1, 0, 0, 0, 77, 0, 2, 0, 3, 0, 0, 0, 4, 1, 111, 112, 117, 115] =
        some { channel := .audio, id := 77, index := 2, count := 3, resent := true,
               payload := [111, 112, 117, 115] } ∧
      decode? [1, 0, 0, 0, 77, 0, 2, 0, 3, 0, 0, 0, 4, 1, 111, 112, 117] = none ∧
      decode? [1, 0, 0, 0, 77, 0, 2, 0, 3, 0, 0, 0, 4, 1, 111, 112, 117, 115, 0] = none := by
  obtain ⟨hread, hstrict⟩ := reads_wire_forms_only.2.1
    { channel := .audio, id := 77, index := 2, count := 3, resent := true,
      payload := [111, 112, 117, 115] } (by decide)
  refine ⟨hread, ?_, ?_⟩
  · exact hstrict _ (by decide) (Or.inl (by decide))
  · exact hstrict _ (by decide) (Or.inr (by decide))

end Packet

end Framecast
