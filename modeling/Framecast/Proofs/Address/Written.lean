/-
Which texts are IPv4 addresses.

An address is read part by part, and each part as far as there are digits.  A part that is read is
the usual form of its number, so the reader takes the written form of an address and nothing else.
-/
import Framecast.Address.IPv4
import Framecast.Proofs.Text.Digits

namespace Framecast.IPv4

open Text (Plain Stops number takeDigits takeDigits_eq_iff)

/-- A part is a plain run of at most three digits and of one byte. -/
theorem part_take?_iff_of_digits {s rest rest' : List Char} {digits : List Nat} {n : Nat}
    (h : takeDigits 10 s = (digits, rest)) :
    part.take? s = some (n, rest') ↔
      Plain digits ∧ digits.length ≤ 3 ∧ number 10 digits < 256 ∧ number 10 digits = n ∧
        rest = rest' := by
  obtain ⟨-, hlt, -⟩ := takeDigits_eq_iff.mp h
  have hplain : Plain digits ↔ digits ≠ [] ∧ (digits.head? = some 0 → digits.length ≤ 1) :=
    ⟨fun h => ⟨h.ne_nil, h.head⟩, fun h => ⟨hlt, h.1, h.2⟩⟩
  rw [hplain]
  simp only [Text.NumeralForm.take?, part, h]
  split
  · rename_i hempty
    exact iff_of_false nofun fun hc => hc.1.1 (List.isEmpty_iff.mp hempty)
  · rename_i hfull
    split
    · rename_i hlong
      have hmore : 3 < digits.length := by simpa using hlong
      exact iff_of_false nofun fun hc => absurd hc.2.1 (Nat.not_le.mpr hmore)
    · rename_i hshort
      have hthree : digits.length ≤ 3 := by simpa using hshort
      split
      · rename_i hzero
        exact iff_of_false nofun fun hc => absurd (hc.1.2 hzero.2.1) (Nat.not_le.mpr hzero.2.2)
      · rename_i hhead
        have hne : digits ≠ [] := fun hnil => hfull (List.isEmpty_iff.mpr hnil)
        have hone : digits.head? = some 0 → digits.length ≤ 1 := fun hzero =>
          Nat.le_of_not_lt fun hmany => hhead ⟨Bool.noConfusion, hzero, hmany⟩
        split
        · rename_i hbyte
          rw [Option.some.injEq, Prod.mk.injEq]
          exact ⟨fun hc => ⟨⟨hne, hone⟩, hthree, hbyte, hc⟩, fun hc => hc.2.2.2⟩
        · rename_i hlarge
          exact iff_of_false nofun fun hc => hlarge hc.2.2.1

/-- A part is the usual form of a number of one byte. -/
theorem part_take?_eq_some_iff {s rest : List Char} {n : Nat} :
    part.take? s = some (n, rest) ↔ n < 256 ∧ s = Nat.toDigits 10 n ++ rest ∧ Stops rest := by
  constructor
  · intro h
    obtain ⟨digits, rest', htake⟩ : ∃ digits rest', takeDigits 10 s = (digits, rest') := ⟨_, _, rfl⟩
    obtain ⟨hplain, -, hbyte, rfl, rfl⟩ := (part_take?_iff_of_digits htake).mp h
    obtain ⟨hs, -, hstops⟩ := takeDigits_eq_iff.mp htake
    exact ⟨hbyte, by rw [hs, hplain.toDigits_number], hstops⟩
  · rintro ⟨hbyte, hs, hstops⟩
    obtain ⟨digits, hplain, rfl⟩ := Text.exists_plain n
    rw [hplain.toDigits_number] at hs
    have hthree : (Nat.toDigits 10 (number 10 digits)).length ≤ 3 :=
      (Nat.length_toDigits_le_iff (by decide) (by decide)).mpr (by omega)
    rw [hplain.toDigits_number, List.length_map] at hthree
    have htake := takeDigits_eq_iff.mpr ⟨hs, hplain.lt, hstops⟩
    exact (part_take?_iff_of_digits htake).mpr ⟨hplain, hthree, hbyte, rfl, rfl⟩

theorem stops_dot (rest : List Char) : Stops ('.' :: rest) :=
  Text.stops_cons (by decide) rest

theorem takePart?_eq_some_iff {s rest : List Char} {n : Nat} :
    takePart? s = some (n, rest) ↔
      n < 256 ∧ s = '.' :: (Nat.toDigits 10 n ++ rest) ∧ Stops rest := by
  unfold takePart?
  split
  · rw [part_take?_eq_some_iff, List.cons.injEq]
    simp
  · rename_i hother
    exact iff_of_false nofun fun hc => hother _ hc.2.1

/-- The usual form of a byte. -/
def written (b : UInt8) : List Char :=
  Nat.toDigits 10 b.toNat

theorem written_ofNat {n : Nat} (h : n < 256) : written (UInt8.ofNat n) = Nat.toDigits 10 n := by
  rw [written, UInt8.toNat_ofNat_of_lt' h]

theorem toList_render (ip : IPv4) :
    ip.render.toList = written ip.a ++ '.' :: (written ip.b ++ '.' ::
      (written ip.c ++ '.' :: written ip.d)) := by
  simp [render, bytes, written]

/-- **What is read of a text is an address in its written form**, up to where the digits end. -/
theorem take?_eq_some_iff {s rest : List Char} {ip : IPv4} :
    take? s = some (ip, rest) ↔ s = ip.render.toList ++ rest ∧ Stops rest := by
  rw [toList_render]
  constructor
  · intro h
    obtain ⟨⟨a, s₁⟩, hfirst, h⟩ := Option.bind_eq_some_iff.mp h
    obtain ⟨⟨b, s₂⟩, hsecond, h⟩ := Option.bind_eq_some_iff.mp h
    obtain ⟨⟨c, s₃⟩, hthird, h⟩ := Option.bind_eq_some_iff.mp h
    obtain ⟨⟨d, s₄⟩, hfourth, h⟩ := Option.bind_eq_some_iff.mp h
    cases h
    obtain ⟨ha, rfl, -⟩ := part_take?_eq_some_iff.mp hfirst
    obtain ⟨hb, rfl, -⟩ := takePart?_eq_some_iff.mp hsecond
    obtain ⟨hc, rfl, -⟩ := takePart?_eq_some_iff.mp hthird
    obtain ⟨hd, rfl, hstops⟩ := takePart?_eq_some_iff.mp hfourth
    rw [written_ofNat ha, written_ofNat hb, written_ofNat hc, written_ofNat hd]
    exact ⟨by simp only [List.append_assoc, List.cons_append], hstops⟩
  · rintro ⟨hs, hstops⟩
    obtain ⟨a, b, c, d⟩ := ip
    have hd : takePart? ('.' :: (written d ++ rest)) = some (d.toNat, rest) :=
      takePart?_eq_some_iff.mpr ⟨d.toNat_lt, rfl, hstops⟩
    have hc (later : List Char) :
        takePart? ('.' :: (written c ++ '.' :: later)) = some (c.toNat, '.' :: later) :=
      takePart?_eq_some_iff.mpr ⟨c.toNat_lt, rfl, stops_dot later⟩
    have hb (later : List Char) :
        takePart? ('.' :: (written b ++ '.' :: later)) = some (b.toNat, '.' :: later) :=
      takePart?_eq_some_iff.mpr ⟨b.toNat_lt, rfl, stops_dot later⟩
    have ha (later : List Char) :
        part.take? (written a ++ '.' :: later) = some (a.toNat, '.' :: later) :=
      part_take?_eq_some_iff.mpr ⟨a.toNat_lt, rfl, stops_dot later⟩
    simp only [List.append_assoc, List.cons_append] at hs
    simp only [take?, hs, ha, hb, hc, hd, Option.bind_eq_bind, Option.bind_some,
      UInt8.ofNat_toNat]

/-- **An address is read from its written form and from nothing else.** -/
theorem parse?_eq_some_iff {text : List Char} {ip : IPv4} :
    parse? text = some ip ↔ text = ip.render.toList := by
  have hread : parse? text = some ip ↔ take? text = some (ip, []) := by
    unfold parse?
    split
    · rename_i other htake
      rw [htake, Option.some.injEq, Option.some.injEq, Prod.mk.injEq]
      exact (and_iff_left rfl).symm
    · rename_i hother
      exact iff_of_false nofun fun htake => hother ip htake
  rw [hread, take?_eq_some_iff, List.append_nil]
  exact and_iff_left Text.stops_nil

theorem length_render_le (ip : IPv4) : ip.render.toList.length ≤ 15 := by
  have hbyte (b : UInt8) : (written b).length ≤ 3 :=
    (Nat.length_toDigits_le_iff (by decide) (by decide)).mpr (by have := b.toNat_lt; omega)
  have ha := hbyte ip.a
  have hb := hbyte ip.b
  have hc := hbyte ip.c
  have hd := hbyte ip.d
  rw [toList_render]
  simp only [List.length_append, List.length_cons]
  omega

end Framecast.IPv4
