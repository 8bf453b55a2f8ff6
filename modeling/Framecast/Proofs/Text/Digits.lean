/-
Digits, and the numerals they make.

A hexadecimal digit is an ASCII character, so a text of digits has a byte for each of them, and a
character that is none has a byte that is none: looking at bytes is looking at characters.

A run of decimal digits that does not start with zero, unless it is zero itself, is the usual way
to write a number, and the only one without leading zeros.
-/
import Mathlib.Data.List.Induction
import Framecast.Text.Hex
import Framecast.Text.Numeral

namespace Framecast

/-! ### Bytes and characters -/

/-- The hexadecimal digits. -/
def Text.IsHexDigit (c : Char) : Prop :=
  '0' ≤ c ∧ c ≤ '9' ∨ 'a' ≤ c ∧ c ≤ 'f' ∨ 'A' ≤ c ∧ c ≤ 'F'

instance (c : Char) : Decidable (Text.IsHexDigit c) :=
  inferInstanceAs (Decidable ('0' ≤ c ∧ c ≤ '9' ∨ 'a' ≤ c ∧ c ≤ 'f' ∨ 'A' ≤ c ∧ c ≤ 'F'))

theorem Text.IsHexDigit.ascii {c : Char} (h : IsHexDigit c) : c.toNat < 128 := by
  have hle {last : Char} (hlast : c ≤ last) : c.toNat ≤ last.toNat :=
    UInt32.le_iff_toNat_le.mp (Char.le_def.mp hlast)
  rcases h with ⟨-, h⟩ | ⟨-, h⟩ | ⟨-, h⟩
  · exact Nat.lt_of_le_of_lt (hle h) (by decide)
  · exact Nat.lt_of_le_of_lt (hle h) (by decide)
  · exact Nat.lt_of_le_of_lt (hle h) (by decide)

theorem utf8EncodeChar_ascii {c : Char} (h : c.toNat < 128) :
    String.utf8EncodeChar c = [UInt8.ofNat c.toNat] :=
  if_pos (Nat.le_of_lt_succ h)

/-- A character beyond ASCII starts with a byte beyond ASCII. -/
theorem exists_large_of_utf8EncodeChar {c : Char} (h : 128 ≤ c.toNat) :
    ∃ b ∈ String.utf8EncodeChar c, 128 ≤ b.toNat := by
  have hofNat {n : Nat} (hlow : 128 ≤ n) (hhigh : n < 256) : 128 ≤ (UInt8.ofNat n).toNat := by
    rwa [UInt8.toNat_ofNat_of_lt' hhigh]
  have hc : c.val.toNat = c.toNat := rfl
  unfold String.utf8EncodeChar
  dsimp only
  rw [hc, if_neg (by omega)]
  split
  · exact ⟨_, List.mem_cons_self .., hofNat (by omega) (by omega)⟩
  · split
    · exact ⟨_, List.mem_cons_self .., hofNat (by omega) (by omega)⟩
    · exact ⟨_, List.mem_cons_self .., hofNat (by omega) (by omega)⟩

namespace Hex

open Text (IsHexDigit)

theorem digit?_ascii : ∀ n < 128,
    (digit? (UInt8.ofNat n)).isSome = true ↔ IsHexDigit (Char.ofNat n) := by
  decide +kernel

theorem digit?_of_le {b : UInt8} (h : 128 ≤ b.toNat) : digit? b = none := by
  have h9 : ¬ b ≤ 0x39 := by rw [UInt8.le_iff_toNat_le]; simp; omega
  have hF : ¬ b ≤ 0x46 := by rw [UInt8.le_iff_toNat_le]; simp; omega
  have hf : ¬ b ≤ 0x66 := by rw [UInt8.le_iff_toNat_le]; simp; omega
  simp [digit?, h9, hF, hf]

/-- **The bytes of a character are digits exactly if it is one.** -/
theorem digits_utf8EncodeChar (c : Char) :
    (∀ b ∈ String.utf8EncodeChar c, (digit? b).isSome = true) ↔ IsHexDigit c := by
  by_cases hascii : c.toNat < 128
  · have hdigit := digit?_ascii c.toNat hascii
    rw [Char.ofNat_toNat] at hdigit
    rw [utf8EncodeChar_ascii hascii, List.forall_mem_singleton, hdigit]
  · refine iff_of_false (fun hall => ?_) fun hdigit => hascii hdigit.ascii
    obtain ⟨b, hb, hlarge⟩ := exists_large_of_utf8EncodeChar (Nat.le_of_not_lt hascii)
    have hnone := hall b hb
    rw [digit?_of_le hlarge] at hnone
    cases hnone

end Hex

namespace Text

/-! ### Decimal digits -/

theorem digitValue?_digitChar : ∀ d < 10, digitValue? 10 (Nat.digitChar d) = some d := by
  decide

theorem digitValue?_ascii : ∀ n < 128,
    (digitValue? 10 (Char.ofNat n)).all fun d => d < 10 ∧ Char.ofNat n = Nat.digitChar d := by
  decide +kernel

theorem isHexDigit_of_digitValue? {radix d : Nat} {c : Char} (h : digitValue? radix c = some d) :
    IsHexDigit c := by
  refine Decidable.byContradiction fun hnot => ?_
  rw [IsHexDigit, not_or, not_or] at hnot
  obtain ⟨hdecimal, hlower, hupper⟩ := hnot
  rw [digitValue?, if_neg hdecimal, if_neg hlower, if_neg hupper] at h
  cases h

theorem digitValue?_eq_some_iff {c : Char} {d : Nat} :
    digitValue? 10 c = some d ↔ d < 10 ∧ c = Nat.digitChar d := by
  constructor
  · intro h
    have hall := digitValue?_ascii c.toNat (isHexDigit_of_digitValue? h).ascii
    rw [Char.ofNat_toNat, h] at hall
    simpa using hall
  · rintro ⟨hlt, rfl⟩
    exact digitValue?_digitChar d hlt

/-- No decimal digit comes next. -/
def Stops (rest : List Char) : Prop :=
  ∀ c ∈ rest.head?, digitValue? 10 c = none

theorem stops_nil : Stops [] :=
  nofun

theorem stops_cons {c : Char} (h : digitValue? 10 c = none) (rest : List Char) :
    Stops (c :: rest) := by
  intro c' hc'
  cases hc'
  exact h

/-- A run of digits is taken as far as it goes. -/
theorem takeDigits_eq_iff {s rest : List Char} {digits : List Nat} :
    takeDigits 10 s = (digits, rest) ↔
      s = digits.map Nat.digitChar ++ rest ∧ (∀ d ∈ digits, d < 10) ∧ Stops rest := by
  induction s generalizing digits rest with
  | nil =>
    rw [takeDigits, Prod.mk.injEq]
    constructor
    · rintro ⟨rfl, rfl⟩
      exact ⟨rfl, by simp, stops_nil⟩
    · rintro ⟨hs, -, -⟩
      obtain ⟨hdigits, hrest⟩ := List.append_eq_nil_iff.mp hs.symm
      exact ⟨(List.map_eq_nil_iff.mp hdigits).symm, hrest.symm⟩
  | cons c s ih =>
    rw [takeDigits]
    cases hc : digitValue? 10 c with
    | none =>
      dsimp only
      rw [Prod.mk.injEq]
      constructor
      · rintro ⟨rfl, rfl⟩
        exact ⟨rfl, by simp, stops_cons hc s⟩
      · rintro ⟨hs, hlt, -⟩
        cases digits with
        | nil => exact ⟨rfl, hs⟩
        | cons d digits =>
          obtain ⟨rfl, -⟩ := List.cons.inj hs
          rw [digitValue?_digitChar d (hlt d (List.mem_cons_self ..))] at hc
          cases hc
    | some d =>
      obtain ⟨hd, rfl⟩ := digitValue?_eq_some_iff.mp hc
      dsimp only
      rw [Prod.mk.injEq]
      constructor
      · rintro ⟨rfl, rfl⟩
        obtain ⟨hs, hlt, hstops⟩ := ih.mp rfl
        exact ⟨congrArg _ hs, List.forall_mem_cons.mpr ⟨hd, hlt⟩, hstops⟩
      · rintro ⟨hs, hlt, hstops⟩
        cases digits with
        | nil =>
          have hnone := hstops (Nat.digitChar d) (by rw [← List.nil_append rest]; exact hs ▸ rfl)
          rw [hnone] at hc
          cases hc
        | cons d' digits =>
          obtain ⟨hchar, hs⟩ := List.cons.inj hs
          obtain ⟨hd', hlt⟩ := List.forall_mem_cons.mp hlt
          have hsame := digitValue?_digitChar d' hd'
          rw [← hchar, hc] at hsame
          rw [ih.mpr ⟨hs, hlt, hstops⟩]
          exact ⟨congrArg (· :: digits) (Option.some.inj hsame), rfl⟩

/-! ### Decimal numerals -/

/-- A run of digits that does not start with zero, unless it is just that. -/
structure Plain (digits : List Nat) : Prop where
  lt : ∀ d ∈ digits, d < 10
  ne_nil : digits ≠ []
  head : digits.head? = some 0 → digits.length ≤ 1

theorem number_concat (digits : List Nat) (d : Nat) :
    number 10 (digits ++ [d]) = number 10 digits * 10 + d := by
  rw [number, List.foldl_append]
  rfl

theorem le_foldl_digits (digits : List Nat) (n : Nat) :
    n ≤ digits.foldl (fun n d => n * 10 + d) n := by
  induction digits generalizing n with
  | nil => exact Nat.le_refl n
  | cons d digits ih => exact Nat.le_trans (by omega) (ih (n * 10 + d))

theorem number_pos {digits : List Nat} (hne : digits ≠ []) (hhead : digits.head? ≠ some 0) :
    0 < number 10 digits := by
  cases digits with
  | nil => exact absurd rfl hne
  | cons d digits =>
    have hd : d ≠ 0 := fun h => hhead (congrArg some h)
    exact Nat.lt_of_lt_of_le (by omega) (le_foldl_digits digits (0 * 10 + d))

/-- **A plain run is how its number is usually written.**  By induction from the last digit on. -/
theorem Plain.toDigits_number {digits : List Nat} (h : Plain digits) :
    Nat.toDigits 10 (number 10 digits) = digits.map Nat.digitChar := by
  induction digits using List.reverseRecOn with
  | nil => exact absurd rfl h.ne_nil
  | append_singleton digits d ih =>
    have hd : d < 10 := h.lt d (by simp)
    cases digits with
    | nil =>
      have hnumber : number 10 [d] = d := by simp [number]
      rw [List.nil_append, hnumber, Nat.toDigits_of_lt_base hd]
      rfl
    | cons first digits =>
      have hhead : (first :: digits).head? ≠ some 0 := fun hzero => by
        have hone := h.head hzero
        simp at hone
      have hplain : Plain (first :: digits) :=
        ⟨fun d' hd' => h.lt d' (List.mem_append_left _ hd'), List.cons_ne_nil _ _,
          fun hzero => absurd hzero hhead⟩
      have hpos := number_pos (List.cons_ne_nil _ _) hhead
      rw [number_concat, Nat.mul_comm, ← Nat.toDigits_append_toDigits (by decide) hpos hd,
        ih hplain, Nat.toDigits_of_lt_base hd, List.map_append]
      rfl

/-- Every number has a plain run.  By induction on the number without its last digit. -/
theorem exists_plain (n : Nat) : ∃ digits, Plain digits ∧ number 10 digits = n := by
  induction n using Nat.strongRecOn with
  | ind n ih =>
    by_cases hlt : n < 10
    · refine ⟨[n], ⟨by simpa using hlt, List.cons_ne_nil _ _, fun _ => Nat.le_refl 1⟩, ?_⟩
      simp [number]
    · obtain ⟨digits, hplain, hnumber⟩ := ih (n / 10) (by omega)
      refine ⟨digits ++ [n % 10], ⟨fun d hd => ?_, by simp, fun hzero => ?_⟩, ?_⟩
      · rcases List.mem_append.mp hd with hd | hd
        · exact hplain.lt d hd
        · rw [List.mem_singleton.mp hd]
          omega
      · -- A run that starts with zero is zero, but there is more to this number.
        cases digits with
        | nil => exact absurd rfl hplain.ne_nil
        | cons first digits =>
          cases hzero
          have hone := hplain.head rfl
          rw [List.length_cons] at hone
          rw [List.length_eq_zero_iff.mp (by omega : digits.length = 0)] at hnumber
          have : number 10 [0] = 0 := rfl
          omega
      · rw [number_concat, hnumber]
        omega

end Text

end Framecast
