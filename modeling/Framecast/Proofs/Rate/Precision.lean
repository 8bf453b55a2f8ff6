/-
Counting the roundings behind a float.

`Near x q k` says that the float `x` is the number `q` but for `k` roundings: up to a
factor of `slack ^ k` either way.  The counts add up along an expression, so that what an
expression comes to can be read off its exact value, without looking at any mantissa.
This is enough to compare floats that differ by more than the roundings make: cut to
whole numbers, a share of a rate that is less than the whole of it is less than the
rate, and so is a blend of the rate with less.
-/
import Framecast.Proofs.Rate.Rounding

namespace Framecast

namespace Rounding

/-! ### Counting roundings -/

/-- The factor that one rounding stays within. -/
def slack : ℚ := 1 + 1 / 2 ^ 51

/-- The float is within `k` roundings of `q`. -/
def Near (x : Float) (q : ℚ) (k : ℕ) : Prop :=
  ∃ v, Stands x v ∧ q ≤ v * slack ^ k ∧ v ≤ q * slack ^ k

theorem one_le_slack : 1 ≤ slack := by
  unfold slack
  norm_num

theorem one_le_slack_pow (k : ℕ) : 1 ≤ slack ^ k :=
  one_le_pow₀ one_le_slack

theorem slack_pow_le (k : ℕ) : slack ^ k ≤ 2 ^ k :=
  pow_le_pow_left₀ (le_trans zero_le_one one_le_slack) (by unfold slack; norm_num) k

/-- A number that is near enough to a medium one is in range. -/
theorem inRange_of_le {v q : ℚ} {k : ℕ} (hk : k ≤ 100) (hlow : 2 ^ (-100 : ℤ) ≤ q)
    (hhigh : q ≤ 2 ^ (100 : ℤ)) (hvlow : q ≤ v * slack ^ k) (hvhigh : v ≤ q * slack ^ k) :
    InRange v := by
  have hpow : slack ^ k ≤ 2 ^ 100 :=
    le_trans (slack_pow_le k) (pow_le_pow_right₀ (by norm_num) hk)
  have hpos : (0 : ℚ) < slack ^ k := lt_of_lt_of_le one_pos (one_le_slack_pow k)
  have hqpos : 0 < q := lt_of_lt_of_le (by positivity) hlow
  have hvpos : 0 < v := pos_of_mul_pos_left (lt_of_lt_of_le hqpos hvlow) hpos.le
  constructor
  · have hstep : (2 : ℚ) ^ (-100 : ℤ) ≤ v * 2 ^ 100 :=
      le_trans hlow (le_trans hvlow (mul_le_mul_of_nonneg_left hpow hvpos.le))
    norm_num at hstep ⊢
    linarith
  · calc v ≤ q * slack ^ k := hvhigh
      _ ≤ 2 ^ (100 : ℤ) * 2 ^ 100 := mul_le_mul hhigh hpow hpos.le (by positivity)
      _ = 2 ^ (200 : ℤ) := by norm_num

/-- One more rounding of a number that is near. -/
theorem near_of_rounded {x : Float} {u v q : ℚ} {k : ℕ} (hx : Stands x u)
    (hu : |u - v| ≤ v / 2 ^ 52) (hvlow : q ≤ v * slack ^ k) (hvhigh : v ≤ q * slack ^ k)
    (hv : 0 ≤ v) : Near x q (k + 1) := by
  obtain ⟨hulow, huhigh⟩ := abs_le.mp hu
  have hpos : (0 : ℚ) < slack ^ k := lt_of_lt_of_le one_pos (one_le_slack_pow k)
  have hvu : v ≤ u * slack := by
    have : v * (1 - 1 / 2 ^ 52) ≤ u := by linarith
    have hfactor : (1 : ℚ) ≤ (1 - 1 / 2 ^ 52) * slack := by unfold slack; norm_num
    have hslack : (0 : ℚ) ≤ slack := le_trans zero_le_one one_le_slack
    calc v ≤ v * ((1 - 1 / 2 ^ 52) * slack) := le_mul_of_one_le_right hv hfactor
      _ = v * (1 - 1 / 2 ^ 52) * slack := by ring
      _ ≤ u * slack := mul_le_mul_of_nonneg_right this hslack
  have huv : u ≤ v * slack := by
    have : u ≤ v * (1 + 1 / 2 ^ 52) := by linarith
    refine le_trans this (mul_le_mul_of_nonneg_left ?_ hv)
    unfold slack
    norm_num
  refine ⟨u, hx, ?_, ?_⟩
  · calc q ≤ v * slack ^ k := hvlow
      _ ≤ u * slack * slack ^ k := mul_le_mul_of_nonneg_right hvu hpos.le
      _ = u * slack ^ (k + 1) := by ring
  · calc u ≤ v * slack := huv
      _ ≤ q * slack ^ k * slack :=
        mul_le_mul_of_nonneg_right hvhigh (le_trans zero_le_one one_le_slack)
      _ = q * slack ^ (k + 1) := by ring

section Arithmetic

variable {x y : Float} {p q : ℚ} {j k : ℕ}

/-- A product takes one rounding more than its factors together. -/
theorem Near.mul (hx : Near x p j) (hy : Near y q k) (hjk : j + k ≤ 100) (hp : 0 ≤ p) (hq : 0 ≤ q)
    (hlow : 2 ^ (-100 : ℤ) ≤ p * q) (hhigh : p * q ≤ 2 ^ (100 : ℤ)) :
    Near (x * y) (p * q) (j + k + 1) := by
  obtain ⟨v, hxv, hvlow, hvhigh⟩ := hx
  obtain ⟨w, hyw, hwlow, hwhigh⟩ := hy
  have hv := hxv.nonneg
  have hw := hyw.nonneg
  have hjpos : (0 : ℚ) < slack ^ j := lt_of_lt_of_le one_pos (one_le_slack_pow j)
  have hbelow : p * q ≤ v * w * slack ^ (j + k) := by
    rw [pow_add, mul_mul_mul_comm]
    exact mul_le_mul hvlow hwlow hq (mul_nonneg hv hjpos.le)
  have habove : v * w ≤ p * q * slack ^ (j + k) := by
    rw [pow_add, mul_mul_mul_comm]
    exact mul_le_mul hvhigh hwhigh hw (mul_nonneg hp hjpos.le)
  obtain ⟨u, hu, herr⟩ :=
    exists_stands_mul hxv hyw (inRange_of_le hjk hlow hhigh hbelow habove)
  exact near_of_rounded hu herr hbelow habove (mul_nonneg hv hw)

/-- A quotient takes one rounding more than its two numbers together. -/
theorem Near.div (hx : Near x p j) (hy : Near y q k) (hjk : j + k ≤ 100) (hp : 0 < p) (hq : 0 < q)
    (hlow : 2 ^ (-100 : ℤ) ≤ p / q) (hhigh : p / q ≤ 2 ^ (100 : ℤ)) :
    Near (x / y) (p / q) (j + k + 1) := by
  obtain ⟨v, hxv, hvlow, hvhigh⟩ := hx
  obtain ⟨w, hyw, hwlow, hwhigh⟩ := hy
  have hv := hxv.nonneg
  have hjpos : (0 : ℚ) < slack ^ j := lt_of_lt_of_le one_pos (one_le_slack_pow j)
  have hkpos : (0 : ℚ) < slack ^ k := lt_of_lt_of_le one_pos (one_le_slack_pow k)
  have hw : 0 < w := pos_of_mul_pos_left (lt_of_lt_of_le hq hwlow) hkpos.le
  have hbelow : p / q ≤ v / w * slack ^ (j + k) := by
    rw [div_mul_eq_mul_div, div_le_div_iff₀ hq hw, pow_add]
    calc p * w ≤ v * slack ^ j * (q * slack ^ k) := mul_le_mul hvlow hwhigh hw.le (by positivity)
      _ = v * (slack ^ j * slack ^ k) * q := by ring
  have habove : v / w ≤ p / q * slack ^ (j + k) := by
    rw [div_mul_eq_mul_div, div_le_div_iff₀ hw hq, pow_add]
    calc v * q ≤ p * slack ^ j * (w * slack ^ k) := mul_le_mul hvhigh hwlow hq.le (by positivity)
      _ = p * (slack ^ j * slack ^ k) * w := by ring
  obtain ⟨u, hu, herr⟩ :=
    exists_stands_div hxv hyw (inRange_of_le hjk hlow hhigh hbelow habove)
  exact near_of_rounded hu herr hbelow habove (div_nonneg hv hw.le)

/-- A sum takes one rounding more than either number. -/
theorem Near.add (hx : Near x p k) (hy : Near y q k) (hk : k ≤ 100)
    (hplow : 2 ^ (-100 : ℤ) ≤ p) (hqlow : 2 ^ (-100 : ℤ) ≤ q) (hhigh : p + q ≤ 2 ^ (100 : ℤ)) :
    Near (x + y) (p + q) (k + 1) := by
  obtain ⟨v, hxv, hvlow, hvhigh⟩ := hx
  obtain ⟨w, hyw, hwlow, hwhigh⟩ := hy
  have hp : 0 < p := lt_of_lt_of_le (by positivity) hplow
  have hq : 0 < q := lt_of_lt_of_le (by positivity) hqlow
  have hbelow : p + q ≤ (v + w) * slack ^ k := by linarith
  have habove : v + w ≤ (p + q) * slack ^ k := by linarith
  obtain ⟨u, hu, herr⟩ := exists_stands_add hxv hyw
    (inRange_of_le hk hplow (by linarith) hvlow hvhigh)
    (inRange_of_le hk hqlow (by linarith) hwlow hwhigh)
    (inRange_of_le hk (by linarith) hhigh hbelow habove)
  exact near_of_rounded hu herr hbelow habove (add_nonneg hxv.nonneg hyw.nonneg)

theorem Near.stands_zero (hy : Near y 0 k) : Stands y 0 := by
  obtain ⟨w, hyw, -, hhigh⟩ := hy
  rw [zero_mul] at hhigh
  rwa [le_antisymm hhigh hyw.nonneg] at hyw

theorem near_zero (hx : Stands x 0) (k : ℕ) : Near x 0 k :=
  ⟨0, hx, by rw [zero_mul], by rw [zero_mul]⟩

theorem Near.mul_zero (hx : Near x p j) (hy : Near y 0 k) : Near (x * y) 0 k := by
  obtain ⟨v, hxv, -⟩ := hx
  exact near_zero (stands_mul_zero hxv hy.stands_zero) k

theorem Near.add_zero (hx : Near x p j) (hy : Near y 0 k) : Near (x + y) p j := by
  obtain ⟨v, hxv, hlow, hhigh⟩ := hx
  exact ⟨v, stands_add_zero hxv hy.stands_zero, hlow, hhigh⟩

/-- What is less than `n` however it was rounded is less than `n` when cut. -/
theorem Near.truncate_lt (hx : Near x p k) {n : ℤ} (hn : n ≤ 2 ^ 63) (h : p * slack ^ k < n) :
    0 ≤ Arithmetic.truncate x ∧ Arithmetic.truncate x < n := by
  obtain ⟨v, hxv, -, hhigh⟩ := hx
  have hlt : v < n := lt_of_le_of_lt hhigh h
  have hlarge : v < 2 ^ 63 := lt_of_lt_of_le hlt (by exact_mod_cast hn)
  rw [truncate_eq_floor hxv hlarge]
  exact ⟨Int.floor_nonneg.mpr hxv.nonneg, Int.floor_lt.mpr hlt⟩

end Arithmetic

/-! ### Numbers to begin with -/

/-- A whole number becomes a float and is then multiplied by one. -/
theorem near_ofNat {n : ℕ} (hn : n < 2 ^ 53) : Near (Float.ofNat n) n 2 := by
  rcases Nat.eq_zero_or_pos n with rfl | hpos
  · exact near_zero (denotes_iff.mpr (Or.inl ⟨rfl, rfl⟩)) 2
  have heq : Float.ofNat n = n.toUInt64.toFloat * Float.exactlyRepresentablePowersOfTen[0] := by
    show Float.ofScientific n false 0 = _
    unfold Float.ofScientific
    rw [dif_pos ⟨hn, by decide⟩]
    rfl
  have htoNat : n.toUInt64.toNat = n := by
    rw [Nat.toUInt64, UInt64.toNat_ofNat', Nat.mod_eq_of_lt (by omega)]
  obtain ⟨v, hv, herr⟩ := exists_stands_toFloat (n := n.toUInt64) (by omega) (by omega)
  rw [htoNat] at herr
  have hcast : (1 : ℚ) ≤ n := by exact_mod_cast hpos
  have hcast' : (n : ℚ) < 2 ^ 53 := by exact_mod_cast hn
  have hfloat : Near n.toUInt64.toFloat n 1 :=
    near_of_rounded hv herr (by rw [pow_zero, mul_one]) (by rw [pow_zero, mul_one]) (by linarith)
  have hone : Near Float.exactlyRepresentablePowersOfTen[0] 1 0 :=
    ⟨1, denotes_iff.mpr (Or.inr
      ⟨4503599627370496, -52, by decide, rfl, by decide, by decide, by norm_num⟩),
      by norm_num, by norm_num⟩
  rw [heq]
  have hmul := hfloat.mul hone (by norm_num) (by linarith) (by norm_num)
    (by norm_num; linarith) (by norm_num; linarith)
  rwa [mul_one] at hmul

theorem unpack_four_fifths :
    (0.8 : Float).toModel.unpack = .finite .positive 7205759403792794 (-53) (by decide) :=
  rfl

theorem unpack_one_fifth :
    (1.0 - 0.8 : Float).toModel.unpack = .finite .positive 7205759403792792 (-55) (by decide) :=
  rfl

theorem near_four_fifths : Near 0.8 (4 / 5) 1 := by
  have hstands : Stands 0.8 (7205759403792794 * 2 ^ (-53 : ℤ)) :=
    denotes_iff.mpr (Or.inr ⟨7205759403792794, -53, by decide, unpack_four_fifths,
      by decide, by decide, by norm_num⟩)
  exact ⟨_, hstands, by norm_num [slack], by norm_num [slack]⟩

theorem near_one_fifth : Near (1.0 - 0.8) (1 / 5) 1 := by
  have hstands : Stands (1.0 - 0.8) (7205759403792792 * 2 ^ (-55 : ℤ)) :=
    denotes_iff.mpr (Or.inr ⟨7205759403792792, -55, by decide, unpack_one_fifth,
      by decide, by decide, by norm_num⟩)
  exact ⟨_, hstands, by norm_num [slack], by norm_num [slack]⟩

end Rounding

/-! ### What the steps of the adaptation make smaller -/

namespace Arithmetic

open Rounding

/-- The rates that the comparisons below are made for: none is ever asked for that comes
near to this. -/
def largeRate : ℕ := 2 ^ 40

variable {expected estimate : ℕ}

/-- **A share that is not the whole makes a rate smaller.** -/
theorem scaled_lt {good bad : ℕ} (hpos : 0 < expected) (hlarge : expected < largeRate)
    (hgood : 0 < good) (hgoodLt : good < 2 ^ 32) (hbad : 0 < bad) (hbadLt : bad < 2 ^ 32) :
    0 ≤ binary64.scaled expected good bad ∧ binary64.scaled expected good bad < expected := by
  replace hlarge : expected < 2 ^ 40 := hlarge
  have he : (1 : ℚ) ≤ expected := by exact_mod_cast hpos
  have heLt : (expected : ℚ) ≤ 2 ^ 40 := by exact_mod_cast hlarge.le
  have hg : (1 : ℚ) ≤ good := by exact_mod_cast hgood
  have hgLt : (good : ℚ) ≤ 2 ^ 32 := by exact_mod_cast hgoodLt.le
  have hb : (1 : ℚ) ≤ bad := by exact_mod_cast hbad
  have hbLt : (bad : ℚ) ≤ 2 ^ 32 := by exact_mod_cast hbadLt.le
  have hsum : (0 : ℚ) < good + bad := by linarith
  have hproduct : (1 : ℚ) ≤ expected * good := one_le_mul_of_one_le_of_one_le he hg
  have hproductLt : (expected : ℚ) * good ≤ 2 ^ 40 * 2 ^ 32 :=
    mul_le_mul heLt hgLt (by linarith) (by norm_num)
  have hnum : Near (Float.ofNat expected * Float.ofNat good) (expected * good) (2 + 2 + 1) :=
    (near_ofNat (by omega)).mul (near_ofNat (by omega)) (by norm_num) (by linarith) (by linarith)
      (by norm_num; linarith) (by norm_num; linarith)
  have hden : Near (Float.ofNat good + Float.ofNat bad) (good + bad) (2 + 1) :=
    (near_ofNat (by omega)).add (near_ofNat (by omega)) (by norm_num) (by norm_num; linarith)
      (by norm_num; linarith) (by norm_num; linarith)
  have hlow : (2 : ℚ) ^ (-100 : ℤ) ≤ expected * good / (good + bad) := by
    rw [le_div_iff₀ hsum]
    norm_num
    linarith
  have hhigh : (expected : ℚ) * good / (good + bad) ≤ 2 ^ (100 : ℤ) := by
    rw [div_le_iff₀ hsum]
    norm_num
    linarith
  have hquotient := hnum.div hden (by norm_num) (by linarith) hsum hlow hhigh
  -- The share is short of the whole by one part in 2 ^ 33 or more, the roundings by far less.
  have hslack : slack ^ 9 ≤ 1 + 1 / 2 ^ 40 := by norm_num [slack]
  have hshare : (good : ℚ) * slack ^ 9 < good + bad := by
    calc (good : ℚ) * slack ^ 9 ≤ good * (1 + 1 / 2 ^ 40) :=
          mul_le_mul_of_nonneg_left hslack (by linarith)
      _ < good + bad := by linarith
  have hscaled : binary64.scaled expected good bad =
      truncate (Float.ofNat expected * Float.ofNat good /
        (Float.ofNat good + Float.ofNat bad)) := rfl
  rw [hscaled]
  have hcut : (expected : ℤ) ≤ 2 ^ 63 := by omega
  refine hquotient.truncate_lt hcut ?_
  rw [div_mul_eq_mul_div, div_lt_iff₀ hsum, mul_assoc, Int.cast_natCast]
  exact mul_lt_mul_of_pos_left hshare (by linarith)

/-- **A blend with less makes a rate smaller.** -/
theorem blend_lt (hlarge : expected < largeRate) (hless : estimate < expected) :
    0 ≤ binary64.blend expected estimate ∧ binary64.blend expected estimate < expected := by
  replace hlarge : expected < 2 ^ 40 := hlarge
  have he : (1 : ℚ) ≤ expected := by exact_mod_cast (show 1 ≤ expected by omega)
  have heLt : (expected : ℚ) ≤ 2 ^ 40 := by exact_mod_cast hlarge.le
  have hstep : (estimate : ℚ) + 1 ≤ expected := by exact_mod_cast hless
  have hold : Near (0.8 * Float.ofNat expected) (4 / 5 * expected) (1 + 2 + 1) :=
    near_four_fifths.mul (near_ofNat (by omega)) (by norm_num) (by norm_num) (by linarith)
      (by norm_num; linarith) (by norm_num; linarith)
  have hsum : ∃ k ≤ 5, Near (0.8 * Float.ofNat expected + (1.0 - 0.8) * Float.ofNat estimate)
      (4 / 5 * expected + 1 / 5 * estimate) k := by
    rcases Nat.eq_zero_or_pos estimate with rfl | hpos
    · refine ⟨4, by norm_num, ?_⟩
      rw [Nat.cast_zero, mul_zero, add_zero]
      exact hold.add_zero (near_one_fifth.mul_zero (near_ofNat (by norm_num)))
    · have hone : (1 : ℚ) ≤ estimate := by exact_mod_cast hpos
      have hnew := near_one_fifth.mul (near_ofNat (n := estimate) (by omega)) (by norm_num)
        (by norm_num) (by linarith) (by norm_num; linarith) (by norm_num; linarith)
      have hadd := hold.add hnew (by norm_num) (by norm_num; linarith) (by norm_num; linarith)
        (by norm_num; linarith)
      exact ⟨5, le_rfl, hadd⟩
  obtain ⟨k, hk, hnear⟩ := hsum
  -- The blend is short of the rate by a fifth or more.
  have hslack : slack ^ k ≤ 1 + 1 / 2 ^ 48 :=
    le_trans (pow_le_pow_right₀ one_le_slack hk) (by norm_num [slack])
  have hblend : binary64.blend expected estimate =
      truncate (0.8 * Float.ofNat expected + (1.0 - 0.8) * Float.ofNat estimate) := rfl
  rw [hblend]
  have hcut : (expected : ℤ) ≤ 2 ^ 63 := by omega
  refine hnear.truncate_lt hcut ?_
  have hnonneg : (0 : ℚ) ≤ 4 / 5 * expected + 1 / 5 * estimate := by positivity
  rw [Int.cast_natCast]
  calc (4 / 5 * (expected : ℚ) + 1 / 5 * estimate) * slack ^ k
      ≤ (4 / 5 * expected + 1 / 5 * estimate) * (1 + 1 / 2 ^ 48) :=
        mul_le_mul_of_nonneg_left hslack hnonneg
    _ < expected := by linarith

end Arithmetic

end Framecast
