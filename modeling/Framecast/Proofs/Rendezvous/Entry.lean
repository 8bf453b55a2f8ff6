/-
The wire form of an entry has one reading, and an entry has one wire form.

Reading takes the fields apart one by one, and each says what the writer would have put
there.  So a datagram holds an entry exactly if it is the wire form of that entry, and
then has the one size that entries have.
-/
import Framecast.Rendezvous.Entry

namespace Framecast

namespace IPv4

/-- The four bytes of a number are the bytes of the address it stands for. -/
theorem digits_eq_bytes_ofNat (n : Nat) : Field.digits 4 n = (ofNat n).bytes := by
  show [UInt8.ofNat (n / 0x1000000), UInt8.ofNat (n / 0x10000), UInt8.ofNat (n / 0x100),
    UInt8.ofNat (n / 1)] = _
  rw [Nat.div_one]
  rfl

theorem bytes_inj {ip other : IPv4} (h : ip.bytes = other.bytes) : ip = other := by
  obtain ⟨a, b, c, d⟩ := ip
  simp only [bytes, List.cons.injEq, and_true] at h
  obtain ⟨rfl, rfl, rfl, rfl⟩ := h
  rfl

/-- An address is the one its bytes stand for as a number. -/
theorem ofNat_value_bytes (ip : IPv4) : ofNat (Field.value ip.bytes) = ip :=
  bytes_inj ((digits_eq_bytes_ofNat _).symm.trans (Field.digits_value ip.bytes))

end IPv4

namespace Rendezvous.Entry

@[simp] theorem length_encode (e : Entry) : e.encode.length = size := by
  simp [encode, IPv4.bytes, size]

/-- **A reader succeeds exactly on what a writer puts in front.** -/
theorem take?_eq_some_iff_encode {b rest : Bytes} {e : Entry} :
    take? b = some (e, rest) ↔ b = e.encode ++ rest := by
  constructor
  · intro h
    simp only [take?, Option.bind_eq_bind, Option.bind_eq_some_iff, Prod.exists,
      Field.take?_eq_some_iff, Option.some.injEq, Prod.mk.injEq] at h
    obtain ⟨ip, _, ⟨-, rfl⟩, publicSocket, _, ⟨hpublic, rfl⟩, privateSocket, _,
      ⟨hprivate, rfl⟩, rfl, rfl⟩ := h
    have hpublic' : (UInt16.ofNat publicSocket).toNat = publicSocket :=
      UInt16.toNat_ofNat_of_lt' hpublic
    have hprivate' : (UInt16.ofNat privateSocket).toNat = privateSocket :=
      UInt16.toNat_ofNat_of_lt' hprivate
    simp only [encode, IPv4.digits_eq_bytes_ofNat, hpublic', hprivate', List.append_assoc]
  · rintro rfl
    have hip : e.ip.bytes = Field.digits 4 (Field.value e.ip.bytes) :=
      (Field.digits_value e.ip.bytes).symm
    have hvalue : Field.value e.ip.bytes % Field.limit 4 = Field.value e.ip.bytes :=
      Nat.mod_eq_of_lt (Field.value_lt e.ip.bytes)
    have hpublic : e.publicSocket.toNat % Field.limit 2 = e.publicSocket.toNat :=
      Nat.mod_eq_of_lt e.publicSocket.toNat_lt
    have hprivate : e.privateSocket.toNat % Field.limit 2 = e.privateSocket.toNat :=
      Nat.mod_eq_of_lt e.privateSocket.toNat_lt
    rw [encode, hip]
    simp only [take?, List.append_assoc, Field.take?_digits_append, Option.bind_eq_bind,
      Option.bind_some, hvalue, hpublic, hprivate, IPv4.ofNat_value_bytes, UInt16.ofNat_toNat]

/-- **A datagram holds an entry exactly if it is the wire form of it.** -/
theorem ofDatagram_eq_ok_iff {b : Bytes} {e : Entry} : ofDatagram b = .ok e ↔ b = e.encode := by
  constructor
  · intro h
    unfold ofDatagram at h
    split at h
    · rename_i entry htake
      cases h
      simpa using take?_eq_some_iff_encode.mp htake
    · cases h
  · rintro rfl
    have htake : take? e.encode = some (e, []) :=
      take?_eq_some_iff_encode.mpr (List.append_nil _).symm
    rw [ofDatagram, htake]

end Rendezvous.Entry

end Framecast
