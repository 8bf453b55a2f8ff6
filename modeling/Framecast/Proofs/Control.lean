/-
What a control message looks like on the wire, and what is read as one.

`Spells m b` says that `b` is a wire form of `m`.  A message has exactly one, but for
settings of the unknown codec: any number that is no codec's is read as it, and of these the
writer puts only zero.  The reader takes exactly the wire forms off the front of a byte
string, each tag with the fields behind it (`take?_eq_some_iff`), and as a message it accepts
a wire form that nothing follows.

That a byte string is what the writer would have put is then read off `Spells`: always, but
for the codec field of settings that name no codec.
-/
import Framecast.Control
import Framecast.Proofs.Packet.Encoding

namespace Framecast

namespace Codec

/-- The numbers the writer puts. -/
def numbers : List UInt16 := [0, 264, 265]

theorem number_ofNumber_of_mem {n : UInt16} (h : n ∈ numbers) : (ofNumber n).number = n := by
  simp only [numbers, List.mem_cons, List.not_mem_nil, or_false] at h
  rcases h with rfl | rfl | rfl
  · rfl
  · rfl
  · rfl

/-- Any other number is read as the unknown codec, which is written as zero. -/
theorem number_ofNumber_of_not_mem {n : UInt16} (h : n ∉ numbers) : (ofNumber n).number = 0 := by
  unfold ofNumber
  split
  · exact absurd (by decide) h
  · exact absurd (by decide) h
  · rfl

theorem ofNumber_number (c : Codec) : ofNumber c.number = c := by
  cases c <;> rfl

end Codec

namespace Control

/-- The body of a message fits its size field. -/
def Fits : Control → Prop
  | body _ bytes => bytes.length < Field.limit 4
  | _ => True

/-- The wire form of settings with any number in the codec field. -/
def settingsForm (s : Settings) (codec : UInt16) : Bytes :=
  0x02 ::
    (Field.digits 4 s.bitrate.toNat ++ Field.digits 4 s.burst.toNat ++
      Field.digits 8 s.fec.toNat ++ Field.digits 4 s.fps.toNat ++ Field.digits 2 codec.toNat)

/-- A byte string is a wire form of a message. -/
def Spells : Control → Bytes → Prop
  | settings s, b => ∃ codec, Codec.ofNumber codec = s.codec ∧ b = settingsForm s codec
  | m, b => m.Fits ∧ b = m.encode

/-! ### Lengths -/

theorem length_settingsForm (s : Settings) (codec : UInt16) :
    (settingsForm s codec).length = (settings s).size := by
  simp [settingsForm, size]

theorem length_encode (m : Control) : m.encode.length = m.size := by
  cases m with
  | missing channel id index => simp [encode, size]
  | settings s => exact length_settingsForm s s.codec.number
  | body kind bytes => simp [encode, size]; omega

/-! ### Each tag with the fields behind it -/

variable {b rest : Bytes} {m : Control}

theorem takeMissing?_eq_some_iff :
    takeMissing? b = some (m, rest) ↔
      ∃ channel id index, m = missing channel id index ∧ 0x01 :: b = m.encode ++ rest := by
  simp only [takeMissing?, Option.bind_eq_bind, Option.bind_eq_some_iff, Prod.exists,
    Field.take?_eq_some_iff, Option.some.injEq, Prod.mk.injEq]
  constructor
  · rintro ⟨tag, _, ⟨htag, rfl⟩, id, _, ⟨hid, rfl⟩, index, _, ⟨hindex, rfl⟩, channel, hchannel,
      rfl, rfl⟩
    have htag' : channel.tag.toNat = tag := by
      rw [← Channel.eq_tag_of_ofTag? hchannel, UInt8.toNat_ofNat_of_lt' htag]
    have hid' : (UInt32.ofNat id).toInt32.toUInt32.toNat = id := by
      rw [UInt32.toUInt32_toInt32, UInt32.toNat_ofNat_of_lt' hid]
    refine ⟨channel, _, _, rfl, ?_⟩
    simp only [encode, htag', hid', UInt16.toNat_ofNat_of_lt' hindex, List.cons_append,
      List.append_assoc]
  · rintro ⟨channel, id, index, rfl, hb⟩
    simp only [encode, List.cons_append, List.cons.injEq, true_and, List.append_assoc] at hb
    refine ⟨channel.tag.toNat, _, ⟨channel.tag.toNat_lt, hb⟩, id.toUInt32.toNat, _,
      ⟨id.toUInt32.toNat_lt, rfl⟩, index.toNat, rest, ⟨index.toNat_lt, rfl⟩, channel, ?_, ?_, rfl⟩
    · rw [UInt8.ofNat_toNat, Channel.ofTag?_tag]
    · rw [UInt32.ofNat_toNat, UInt16.ofNat_toNat, Int32.toInt32_toUInt32]

theorem takeSettings?_eq_some_iff :
    takeSettings? b = some (m, rest) ↔
      ∃ s codec, Codec.ofNumber codec = s.codec ∧ m = settings s ∧
        0x02 :: b = settingsForm s codec ++ rest := by
  simp only [takeSettings?, Option.bind_eq_bind, Option.bind_eq_some_iff, Prod.exists,
    Field.take?_eq_some_iff, Option.some.injEq, Prod.mk.injEq]
  constructor
  · rintro ⟨bitrate, _, ⟨hbitrate, rfl⟩, burst, _, ⟨hburst, rfl⟩, fec, _, ⟨hfec, rfl⟩, fps, _,
      ⟨hfps, rfl⟩, codec, _, ⟨hcodec, rfl⟩, rfl, rfl⟩
    refine ⟨_, UInt16.ofNat codec, rfl, rfl, ?_⟩
    simp [settingsForm, UInt32.toNat_ofNat_of_lt' hbitrate, UInt32.toNat_ofNat_of_lt' hburst,
      UInt64.toNat_ofNat_of_lt' hfec, UInt32.toNat_ofNat_of_lt' hfps,
      UInt16.toNat_ofNat_of_lt' hcodec]
  · rintro ⟨s, codec, hcodec, rfl, hb⟩
    simp only [settingsForm, List.cons_append, List.cons.injEq, true_and, List.append_assoc] at hb
    refine ⟨s.bitrate.toNat, _, ⟨s.bitrate.toNat_lt, hb⟩, s.burst.toNat, _,
      ⟨s.burst.toNat_lt, rfl⟩, s.fec.toNat, _, ⟨s.fec.toNat_lt, rfl⟩, s.fps.toNat, _,
      ⟨s.fps.toNat_lt, rfl⟩, codec.toNat, rest, ⟨codec.toNat_lt, rfl⟩, ?_, rfl⟩
    simp only [UInt32.ofNat_toNat, UInt64.ofNat_toNat, UInt16.ofNat_toNat, hcodec]

theorem takeBody?_eq_some_iff {kind : BodyKind} :
    takeBody? kind b = some (m, rest) ↔
      ∃ bytes, bytes.length < Field.limit 4 ∧ m = body kind bytes ∧
        kind.tag :: b = m.encode ++ rest := by
  simp only [takeBody?, Option.bind_eq_bind, Option.bind_eq_some_iff, Prod.exists,
    Field.take?_eq_some_iff, Option.ite_none_right_eq_some, Option.some.injEq, Prod.mk.injEq]
  constructor
  · rintro ⟨size, rest', ⟨hsize, rfl⟩, hle, rfl, rfl⟩
    have hlength : (rest'.take size).length = size := List.length_take_of_le hle
    refine ⟨rest'.take size, by rwa [hlength], rfl, ?_⟩
    simp [encode, Nat.min_eq_left hle]
  · rintro ⟨bytes, hbytes, rfl, hb⟩
    simp only [encode, List.cons_append, List.cons.injEq, true_and, List.append_assoc] at hb
    refine ⟨bytes.length, bytes ++ rest, ⟨hbytes, hb⟩, ?_, ?_, ?_⟩
    · simp
    · simp
    · simp

/-! ### All of a message -/

theorem exists_spells_of_take? (h : take? b = some (m, rest)) :
    ∃ w, Spells m w ∧ b = w ++ rest := by
  unfold take? at h
  split at h
  · obtain ⟨channel, id, index, rfl, hb⟩ := takeMissing?_eq_some_iff.mp h
    exact ⟨_, ⟨trivial, rfl⟩, hb⟩
  · obtain ⟨s, codec, hcodec, rfl, hb⟩ := takeSettings?_eq_some_iff.mp h
    exact ⟨_, ⟨codec, hcodec, rfl⟩, hb⟩
  · obtain ⟨bytes, hbytes, rfl, hb⟩ := takeBody?_eq_some_iff.mp h
    exact ⟨_, ⟨hbytes, rfl⟩, hb⟩
  · obtain ⟨bytes, hbytes, rfl, hb⟩ := takeBody?_eq_some_iff.mp h
    exact ⟨_, ⟨hbytes, rfl⟩, hb⟩
  · obtain ⟨bytes, hbytes, rfl, hb⟩ := takeBody?_eq_some_iff.mp h
    exact ⟨_, ⟨hbytes, rfl⟩, hb⟩
  · cases h

theorem take?_append_of_spells {w : Bytes} (h : Spells m w) (rest : Bytes) :
    take? (w ++ rest) = some (m, rest) := by
  cases m with
  | missing channel id index =>
      obtain ⟨-, rfl⟩ := h
      exact takeMissing?_eq_some_iff.mpr ⟨channel, id, index, rfl, rfl⟩
  | settings s =>
      obtain ⟨codec, hcodec, rfl⟩ := h
      exact takeSettings?_eq_some_iff.mpr ⟨s, codec, hcodec, rfl, rfl⟩
  | body kind bytes =>
      obtain ⟨hbytes, rfl⟩ := h
      cases kind with
      | cursor => exact takeBody?_eq_some_iff.mpr ⟨bytes, hbytes, rfl, rfl⟩
      | clipboard => exact takeBody?_eq_some_iff.mpr ⟨bytes, hbytes, rfl, rfl⟩
      | file => exact takeBody?_eq_some_iff.mpr ⟨bytes, hbytes, rfl, rfl⟩

/-- **The reader takes wire forms off the front, and nothing else.** -/
theorem take?_eq_some_iff :
    take? b = some (m, rest) ↔ ∃ w, Spells m w ∧ b = w ++ rest := by
  constructor
  · exact exists_spells_of_take?
  · rintro ⟨w, hw, rfl⟩
    exact take?_append_of_spells hw rest

/-- A byte string is read as a message exactly if it is a wire form of it. -/
theorem decode?_eq_some_iff : decode? b = some m ↔ Spells m b := by
  have htake : decode? b = some m ↔ take? b = some (m, []) := by
    unfold decode?
    cases take? b with
    | none => simp
    | some r =>
        obtain ⟨m', rest⟩ := r
        cases rest <;> simp
  rw [htake, take?_eq_some_iff]
  simp

/-! ### The wire form that is written -/

theorem spells_encode (h : m.Fits) : Spells m m.encode := by
  cases m with
  | missing channel id index => exact ⟨h, rfl⟩
  | settings s => exact ⟨s.codec.number, Codec.ofNumber_number s.codec, rfl⟩
  | body kind bytes => exact ⟨h, rfl⟩

theorem Spells.length_eq (h : Spells m b) : b.length = m.size := by
  cases m with
  | missing channel id index => rw [h.2, length_encode]
  | settings s =>
      obtain ⟨codec, -, rfl⟩ := h
      exact length_settingsForm s codec
  | body kind bytes => rw [h.2, length_encode]

/-- A message is settings, and the last two bytes it was read from are no codec's number. -/
def NamesNoCodec (m : Control) (b : Bytes) : Prop :=
  (∃ s, m = settings s) ∧ Field.value (b.drop (m.size - 2)) ∉ [0, 264, 265]

section Settings

variable {s : Settings} {codec : UInt16}

theorem drop_settingsForm : (settingsForm s codec).drop 21 = Field.digits 2 codec.toNat := by
  simp [settingsForm, List.drop_append, List.drop_of_length_le]

theorem take_settingsForm (codec' : UInt16) :
    (settingsForm s codec).take 21 = (settingsForm s codec').take 21 := by
  simp [settingsForm, List.take_append]

theorem namesNoCodec_settingsForm :
    NamesNoCodec (settings s) (settingsForm s codec) ↔ codec ∉ Codec.numbers := by
  have hsize : (settings s).size - 2 = 21 := rfl
  have hvalue : Field.value (Field.digits 2 codec.toNat) = codec.toNat := by
    rw [Field.value_digits]
    exact Nat.mod_eq_of_lt codec.toNat_lt
  rw [NamesNoCodec, hsize, drop_settingsForm, hvalue]
  simp [Codec.numbers, ← UInt16.toNat_inj]

end Settings

/-- A byte string that is read as a message is what the writer puts, unless it is settings
that name no codec. -/
theorem Spells.eq_encode (h : Spells m b) (hcodec : ¬ NamesNoCodec m b) : b = m.encode := by
  cases m with
  | missing channel id index => exact h.2
  | body kind bytes => exact h.2
  | settings s =>
      obtain ⟨codec, hof, rfl⟩ := h
      rw [namesNoCodec_settingsForm] at hcodec
      have hnumber : s.codec.number = codec := by
        rw [← hof]
        exact Codec.number_ofNumber_of_mem (not_not.mp hcodec)
      rw [← hnumber]
      rfl

/-- Of settings that name no codec the writer puts the same but for the last two bytes,
which it leaves zero. -/
theorem Spells.encode_of_namesNoCodec (h : Spells m b) (hcodec : NamesNoCodec m b) :
    b.take (m.size - 2) = m.encode.take (m.size - 2) ∧ m.encode.drop (m.size - 2) = [0, 0] := by
  obtain ⟨⟨s, rfl⟩, -⟩ := id hcodec
  obtain ⟨codec, hof, rfl⟩ := h
  rw [namesNoCodec_settingsForm] at hcodec
  have hnumber : s.codec.number = 0 := by
    rw [← hof]
    exact Codec.number_ofNumber_of_not_mem hcodec
  refine ⟨take_settingsForm s.codec.number, ?_⟩
  show (settingsForm s s.codec.number).drop 21 = [0, 0]
  rw [drop_settingsForm, hnumber]
  rfl

/--
**Messages are read as they were written, and nothing else is read.**

* A message whose body fits its size field is written in exactly its size, and read back.
* A byte string that is read as a message is of the size of the message and equal to what
  the writer puts; only of settings with a last field that is no codec's number, the writer
  puts zero there.
-/
theorem reads_messages_only :
    (∀ m : Control, (∀ kind bytes, m = body kind bytes → bytes.length < UInt32.size) →
      m.encode.length = m.size ∧ decode? m.encode = some m) ∧
    ∀ (b : Bytes) (m : Control), decode? b = some m →
      b.length = m.size ∧ (¬ NamesNoCodec m b → b = m.encode) ∧
        (NamesNoCodec m b → b.take (m.size - 2) = m.encode.take (m.size - 2) ∧
          m.encode.drop (m.size - 2) = [0, 0]) := by
  constructor
  · intro m hbody
    have hfits : m.Fits := by
      cases m with
      | missing channel id index => trivial
      | settings s => trivial
      | body kind bytes => exact hbody kind bytes rfl
    exact ⟨length_encode m, decode?_eq_some_iff.mpr (spells_encode hfits)⟩
  · intro b m hread
    have h : Spells m b := decode?_eq_some_iff.mp hread
    exact ⟨h.length_eq, h.eq_encode, h.encode_of_namesNoCodec⟩

/-- Settings whose codec field holds seven are read; written again they are the same with
zero in its place, which is read as the same settings. -/
theorem reads_settings_of_codec_seven :
    let b : Bytes := [2, 0, 0, 0, 1, 0, 0, 0, 2, 0, 0, 0, 0, 0, 0, 0, 3, 0, 0, 0, 4, 0, 7]
    let m := settings { bitrate := 1, burst := 2, fec := 3, fps := 4, codec := .unknown }
    decode? b = some m ∧ NamesNoCodec m b ∧ b.take 21 = m.encode.take 21 ∧
      m.encode.drop 21 = [0, 0] ∧ decode? m.encode = some m := by
  intro b m
  have hread : decode? b = some m := by decide
  have hcodec : NamesNoCodec m b := ⟨⟨_, rfl⟩, by decide⟩
  obtain ⟨hfront, hlast⟩ := (reads_messages_only.2 b m hread).2.2 hcodec
  have hbody : ∀ kind bytes, m = body kind bytes → bytes.length < UInt32.size := by
    intro kind bytes h
    simp [m] at h
  have hback := (reads_messages_only.1 m hbody).2
  exact ⟨hread, hcodec, hfront, hlast, hback⟩

end Control

end Framecast
