/-
How far a float is from the exact result.

A float is a sign, a mantissa and an exponent, and each operation computes with these in
whole numbers: it shifts the exact mantissa down to 53 bits, goes to one of the two
mantissas next to it, and packs the outcome.  So the result of an operation on positive
numbers is off by less than a unit in the last place, which is at most one part in
`2 ^ 52`.  That is all that is said of rounding here; which of the two neighbours is
taken, and what becomes of ties, does not matter for it.

`Stands x v` says that the float `x` is exactly the number `v`, zero or a normal positive
one.  The exact results stay well within the normal range (`InRange`), where neither
underflow nor overflow can happen.
-/
import Mathlib
import Framecast.Rate.Arithmetic

namespace Framecast

namespace Rounding

open Float.Model Float.Model.UnpackedFloat

/-- The format of `Float`. -/
abbrev format : Format := Format.binary64

/-! ### Cutting a mantissa down to its bits -/

theorem mantissa_shiftRight (em : ExtendedMantissa) (k : ℕ) :
    (em >>> k).mantissa = em.mantissa / 2 ^ k := by
  induction k with
  | zero => simp [HShiftRight.hShiftRight, Nat.repeat]
  | succ k ih =>
      show (em >>> k).mantissa / 2 = _
      rw [ih, Nat.div_div_eq_div_mul, Nat.pow_succ]

theorem le_roundedMantissa (em : ExtendedMantissa) :
    em.mantissa ≤ em.roundedMantissa ∧ em.roundedMantissa ≤ em.mantissa + 1 := by
  obtain ⟨m, half, rest⟩ := em
  cases half <;> cases rest <;>
    simp [ExtendedMantissa.roundedMantissa, ExtendedMantissa.accuracy,
      Accuracy.roundToNearestEven]
  omega

theorem targetExponent_totalExponent {m : ℕ} {e : ℤ} (hlow : -1022 ≤ m.log2 + e) :
    format.targetExponent (totalExponent m e) = m.log2 + e - 52 := by
  simp only [Format.targetExponent, totalExponent, Format.mantissaBits, Format.minExponent]
  norm_num
  omega

theorem shiftToTargetExponent_eq {m : ℕ} {e : ℤ} (acc : Accuracy) (hm : 52 ≤ m.log2)
    (hlow : -1022 ≤ m.log2 + e) :
    shiftToTargetExponent format m e acc =
      (ExtendedMantissa.ofMantissaAndAccuracy m acc >>> (m.log2 - 52), m.log2 + e - 52) := by
  have hshift : ((m.log2 : ℤ) + e - 52 - e).toNat = m.log2 - 52 := by omega
  have hexp : e + ((m.log2 - 52 : ℕ) : ℤ) = m.log2 + e - 52 := by omega
  simp only [shiftToTargetExponent, targetExponent_totalExponent hlow, shiftToExponent, hshift,
    hexp]

theorem mantissa_ofMantissaAndAccuracy (m : ℕ) (acc : Accuracy) :
    (ExtendedMantissa.ofMantissaAndAccuracy m acc).mantissa = m := by
  cases acc with
  | exact => rfl
  | inexact o => cases o <;> rfl

theorem log2_eq_of_bounds {m : ℕ} (hlow : 2 ^ 52 ≤ m) (hhigh : m < 2 ^ 53) : m.log2 = 52 :=
  (Nat.log2_eq_iff (by omega)).mpr ⟨hlow, hhigh⟩

theorem pos_of_log2 {m : ℕ} (hm : 52 ≤ m.log2) : 0 < m := by
  refine Nat.pos_of_ne_zero ?_
  rintro rfl
  simp at hm

/-- Cut down to its leading bits, a mantissa has full length. -/
theorem cut_bounds {m : ℕ} (hm : 52 ≤ m.log2) :
    2 ^ 52 ≤ m / 2 ^ (m.log2 - 52) ∧ m / 2 ^ (m.log2 - 52) < 2 ^ 53 := by
  have hpos : 0 < 2 ^ (m.log2 - 52) := by positivity
  refine ⟨(Nat.le_div_iff_mul_le hpos).mpr ?_, (Nat.div_lt_iff_lt_mul hpos).mpr ?_⟩
  · rw [← Nat.pow_add, show 52 + (m.log2 - 52) = m.log2 by omega]
    exact Nat.log2_self_le (pos_of_log2 hm).ne'
  · rw [← Nat.pow_add, show 53 + (m.log2 - 52) = m.log2 + 1 by omega]
    exact Nat.lt_log2_self

/-- Rounding settles on one of the two mantissas next to the exact value. -/
theorem exists_roundWithAccuracy {m : ℕ} {e : ℤ} (s : Sign) (acc : Accuracy) (hm : 52 ≤ m.log2)
    (hlow : -1022 ≤ m.log2 + e) :
    ∃ (t n : ℕ) (f : ℤ) (h : 0 < n),
      roundWithAccuracy format s m e acc = .finite s n f h ∧ 2 ^ 52 ≤ n ∧ n < 2 ^ 53 ∧
      m.log2 + e - 52 ≤ f ∧ f ≤ m.log2 + e - 51 ∧
      (n : ℚ) * 2 ^ f = t * 2 ^ (m.log2 + e - 52) ∧
      m / 2 ^ (m.log2 - 52) ≤ t ∧ t ≤ m / 2 ^ (m.log2 - 52) + 1 := by
  have hcut := cut_bounds hm
  set k := m.log2 - 52 with hk
  set f : ℤ := m.log2 + e - 52 with hf
  set em := ExtendedMantissa.ofMantissaAndAccuracy m acc >>> k with hem
  have hmant : em.mantissa = m / 2 ^ k := by
    rw [hem, mantissa_shiftRight, mantissa_ofMantissaAndAccuracy]
  obtain ⟨hge, hle⟩ := le_roundedMantissa em
  rw [hmant] at hge hle
  have hround : roundWithAccuracy format s m e acc =
      (let final := shiftToTargetExponent format em.roundedMantissa f .exact
       if h : final.1.mantissa = 0 then UnpackedFloat.zero s
       else .finite s final.1.mantissa final.2 (Nat.pos_of_ne_zero h)) := by
    rw [roundWithAccuracy, shiftToTargetExponent_eq acc hm hlow]
  rcases Nat.lt_or_ge em.roundedMantissa (2 ^ 53) with hsmall | hlarge
  · have hlog : em.roundedMantissa.log2 = 52 := log2_eq_of_bounds (by omega) hsmall
    have hfinal : shiftToTargetExponent format em.roundedMantissa f .exact =
        ({ mantissa := em.roundedMantissa, roundBit := false, stickyBit := false }, f) := by
      rw [shiftToTargetExponent_eq _ (by omega) (by omega), hlog]
      have h52 : ((52 : ℕ) : ℤ) + f - 52 = f := by omega
      rw [h52]
      rfl
    refine ⟨em.roundedMantissa, em.roundedMantissa, f, by omega, ?_, by omega, hsmall, le_rfl,
      by omega, rfl, hge, hle⟩
    rw [hround, hfinal]
    exact dif_neg (by show em.roundedMantissa ≠ 0; omega)
  · have htop : em.roundedMantissa = 2 ^ 53 := by omega
    have hlog : (2 ^ 53 : ℕ).log2 = 53 := Nat.log2_two_pow
    have hfinal : shiftToTargetExponent format em.roundedMantissa f .exact =
        ({ mantissa := 2 ^ 52, roundBit := false, stickyBit := false }, f + 1) := by
      rw [htop, shiftToTargetExponent_eq _ (by omega) (by omega), hlog]
      have h53 : ((53 : ℕ) : ℤ) + f - 52 = f + 1 := by omega
      rw [h53]
      rfl
    refine ⟨em.roundedMantissa, 2 ^ 52, f + 1, by omega, ?_, le_rfl, by omega, by omega, by omega,
      ?_, hge, hle⟩
    · rw [hround, hfinal]
      exact dif_neg (by show (2 : ℕ) ^ 52 ≠ 0; decide)
    · rw [htop, zpow_add_one₀ (by norm_num)]
      push_cast
      ring

/-! ### Packing -/

theorem unpack_pack {s : Sign} {m : ℕ} {e : ℤ} (h : 0 < m) (hlow : 2 ^ 52 ≤ m)
    (hhigh : m < 2 ^ 53) (helow : -1074 ≤ e) (hehigh : e ≤ 971) :
    (Float.Model.pack (.finite s m e h)).unpack = .finite s m e h := by
  have hlog : m.log2 + 1 = format.mantissaBits := by
    rw [log2_eq_of_bounds hlow hhigh]
    rfl
  obtain ⟨b, hb⟩ : ∃ b : ℕ, (b : ℤ) = e + 1075 := ⟨(e + 1075).toNat, by omega⟩
  have hbiased :
      (e + (format.exponentBias : ℤ) + (format.mantissaBitsWithoutImplicit : ℤ)).toNat = b := by
    have hbias : (format.exponentBias : ℤ) = 1023 := rfl
    have hbits : (format.mantissaBitsWithoutImplicit : ℤ) = 52 := rfl
    omega
  have hpack : UnpackedFloat.pack format (.finite s m e h) =
      packComponents format s (BitVec.ofNat 11 b) (BitVec.ofNat 52 m) := by
    simp only [UnpackedFloat.pack, hbiased, hlog, if_true]
    rw [if_neg]
    show ¬ 2 ^ 11 ≤ b + 1
    omega
  have hexp : (BitVec.ofNat 11 b).toNat = b := by
    rw [BitVec.toNat_ofNat, Nat.mod_eq_of_lt (by omega)]
  have hapart {c : BitVec 11} (hc : b ≠ c.toNat) : BitVec.ofNat 11 b ≠ c :=
    fun heq => hc (hexp.symm.trans (congrArg BitVec.toNat heq))
  have htop : BitVec.ofNat 11 b ≠ -1#11 := hapart (show b ≠ 2047 by omega)
  have hzero : BitVec.ofNat 11 b ≠ 0#11 := hapart (show b ≠ 0 by omega)
  have hmant : (1#1 ++ BitVec.ofNat 52 m).toNat = m := by
    rw [BitVec.toNat_append, ← Nat.shiftLeft_add_eq_or_of_lt (BitVec.isLt _)]
    simp [Nat.shiftLeft_eq]
    omega
  have hsign : Sign.ofBitVec s.toBitVec = s := by cases s <;> rfl
  show UnpackedFloat.unpack format (UnpackedFloat.pack format (.finite s m e h)) = _
  rw [hpack]
  unfold UnpackedFloat.unpack
  simp only [unpackMantissa_packComponents, unpackExponent_packComponents,
    unpackSign_packComponents, if_neg htop, if_neg hzero, hmant, hexp, hsign]
  congr 1
  show (b : ℤ) - (1023 + 52) = e
  omega

/-! ### The value of a float -/

/-- What an unpacked float is, if it is zero or a normal positive number. -/
def Denotes : UnpackedFloat → ℚ → Prop
  | .zero .positive, v => v = 0
  | .finite .positive m e _, v => 2 ^ 52 ≤ m ∧ m < 2 ^ 53 ∧ v = m * 2 ^ e
  | _, _ => False

/-- The float is exactly the number `v`. -/
def Stands (x : Float) (v : ℚ) : Prop := Denotes x.toModel.unpack v

/-- Neither too small nor too large to be a normal float. -/
def InRange (v : ℚ) : Prop := 2 ^ (-200 : ℤ) ≤ v ∧ v ≤ 2 ^ (200 : ℤ)

theorem log2_bounds {m : ℕ} {e : ℤ} (hm : 0 < m) :
    (2 : ℚ) ^ (m.log2 + e) ≤ m * 2 ^ e ∧ ((m : ℚ) + 1) * 2 ^ e ≤ 2 ^ (m.log2 + e + 1) := by
  have hpos : (0 : ℚ) < 2 ^ e := by positivity
  have hself : ((2 ^ m.log2 : ℕ) : ℚ) ≤ m := by exact_mod_cast Nat.log2_self_le (by omega)
  have hlt : ((m + 1 : ℕ) : ℚ) ≤ ((2 ^ (m.log2 + 1) : ℕ) : ℚ) := by
    exact_mod_cast Nat.lt_log2_self (n := m)
  push_cast at hself hlt
  constructor
  · rw [zpow_add₀ (by norm_num), zpow_natCast]
    exact mul_le_mul_of_nonneg_right hself hpos.le
  · rw [show (m.log2 : ℤ) + e + 1 = ((m.log2 + 1 : ℕ) : ℤ) + e by push_cast; ring,
      zpow_add₀ (by norm_num), zpow_natCast]
    exact mul_le_mul_of_nonneg_right hlt hpos.le

/-- Both neighbours of a number are within a unit in the last place: in these units, it lies
between the cut mantissa and the next one. -/
theorem abs_neighbour_sub_le {m t : ℕ} {e : ℤ} {r : ℚ} (hm : 52 ≤ m.log2)
    (hlow : (m : ℚ) * 2 ^ e ≤ r) (hhigh : r < (m + 1) * 2 ^ e)
    (htlow : m / 2 ^ (m.log2 - 52) ≤ t) (hthigh : t ≤ m / 2 ^ (m.log2 - 52) + 1) :
    |(t : ℚ) * 2 ^ (m.log2 + e - 52) - r| ≤ r / 2 ^ 52 := by
  set k := m.log2 - 52 with hk
  have hunit : (2 : ℚ) ^ (m.log2 + e - 52) = 2 ^ k * 2 ^ e := by
    rw [← zpow_natCast, ← zpow_add₀ (by norm_num)]
    congr 1
    omega
  set u : ℚ := 2 ^ (m.log2 + e - 52) with hu
  have hupos : 0 < u := by positivity
  have hepos : (0 : ℚ) < 2 ^ e := by positivity
  have hdiv := Nat.div_add_mod m (2 ^ k)
  have hmod := Nat.mod_lt m (show 0 < 2 ^ k by positivity)
  set d := m / 2 ^ k with hd
  have hdlow : (d : ℚ) * u ≤ r := by
    have hcut : ((d * 2 ^ k : ℕ) : ℚ) ≤ m := by exact_mod_cast (by rw [Nat.mul_comm]; omega)
    push_cast at hcut
    calc (d : ℚ) * u = d * 2 ^ k * 2 ^ e := by rw [hunit]; ring
      _ ≤ m * 2 ^ e := mul_le_mul_of_nonneg_right hcut hepos.le
      _ ≤ r := hlow
  have hdhigh : r ≤ (d + 1) * u := by
    have hcut : ((m + 1 : ℕ) : ℚ) ≤ (((d + 1) * 2 ^ k : ℕ) : ℚ) := by
      exact_mod_cast (by rw [Nat.mul_comm, Nat.mul_add]; omega)
    push_cast at hcut
    calc r ≤ (m + 1) * 2 ^ e := hhigh.le
      _ ≤ (d + 1) * 2 ^ k * 2 ^ e := mul_le_mul_of_nonneg_right hcut hepos.le
      _ = (d + 1) * u := by rw [hunit]; ring
  have htlow' : (d : ℚ) ≤ t := by exact_mod_cast htlow
  have hthigh' : (t : ℚ) ≤ d + 1 := by exact_mod_cast hthigh
  have hulp : u ≤ r / 2 ^ 52 := by
    rw [le_div_iff₀ (by norm_num)]
    calc u * 2 ^ 52 = 2 ^ (m.log2 + e) := by
          rw [hu, ← zpow_natCast, ← zpow_add₀ (by norm_num)]
          congr 1
          push_cast
          ring
      _ ≤ r := le_trans (log2_bounds (pos_of_log2 hm)).1 hlow
  have hbelow := mul_le_mul_of_nonneg_right htlow' hupos.le
  have habove := mul_le_mul_of_nonneg_right hthigh' hupos.le
  rw [abs_le]
  constructor
  · linarith
  · linarith

/-- **A rounded number is off by no more than one part in `2 ^ 52`.** -/
theorem exists_denotes_roundWithAccuracy {m : ℕ} {e : ℤ} (acc : Accuracy) (hm : 52 ≤ m.log2)
    {r : ℚ} (hlow : (m : ℚ) * 2 ^ e ≤ r) (hhigh : r < (m + 1) * 2 ^ e) (hr : InRange r) :
    ∃ v, Denotes (Float.Model.pack (roundWithAccuracy format .positive m e acc)).unpack v ∧
      |v - r| ≤ r / 2 ^ 52 := by
  obtain ⟨hbelow, habove⟩ := log2_bounds (e := e) (pos_of_log2 hm)
  have hexplow : -200 < (m.log2 : ℤ) + e + 1 :=
    (zpow_lt_zpow_iff_right₀ (by norm_num : (1 : ℚ) < 2)).mp
      (lt_of_le_of_lt hr.1 (lt_of_lt_of_le hhigh habove))
  have hexphigh : (m.log2 : ℤ) + e ≤ 200 :=
    (zpow_le_zpow_iff_right₀ (by norm_num : (1 : ℚ) < 2)).mp
      (le_trans hbelow (le_trans hlow hr.2))
  obtain ⟨t, n, f, hn, hround, hnlow, hnhigh, hflow, hfhigh, hvalue, htlow, hthigh⟩ :=
    exists_roundWithAccuracy .positive acc hm (e := e) (by omega)
  refine ⟨n * 2 ^ f, ?_, ?_⟩
  · rw [hround, unpack_pack hn hnlow hnhigh (by omega) (by omega)]
    exact ⟨hnlow, hnhigh, rfl⟩
  · rw [hvalue]
    exact abs_neighbour_sub_le hm hlow hhigh htlow hthigh

/-! ### Arithmetic -/

theorem denotes_iff {u : UnpackedFloat} {v : ℚ} :
    Denotes u v ↔ (u = .zero .positive ∧ v = 0) ∨
      ∃ m e h, u = .finite .positive m e h ∧ 2 ^ 52 ≤ m ∧ m < 2 ^ 53 ∧ v = (m : ℚ) * 2 ^ e := by
  constructor
  · intro h
    match u, h with
    | .zero .positive, h => exact Or.inl ⟨rfl, h⟩
    | .finite .positive m e hm, h => exact Or.inr ⟨m, e, hm, rfl, h⟩
  · rintro (⟨rfl, h⟩ | ⟨m, e, hm, rfl, h⟩)
    · exact h
    · exact h

theorem Stands.nonneg {x : Float} {v : ℚ} (h : Stands x v) : 0 ≤ v := by
  rcases denotes_iff.mp h with ⟨-, rfl⟩ | ⟨m, e, -, -, -, -, rfl⟩
  · exact le_rfl
  · positivity

/-- A number other than zero is a normal one. -/
theorem Stands.exists_finite {x : Float} {v : ℚ} (h : Stands x v) (hv : v ≠ 0) :
    ∃ m e hm, x.toModel.unpack = .finite .positive m e hm ∧ 2 ^ 52 ≤ m ∧ m < 2 ^ 53 ∧
      v = (m : ℚ) * 2 ^ e := by
  rcases denotes_iff.mp h with ⟨-, hzero⟩ | hfinite
  · exact absurd hzero hv
  · exact hfinite

theorem Stands.eq_zero {x : Float} (h : Stands x 0) : x.toModel.unpack = .zero .positive := by
  rcases denotes_iff.mp h with ⟨hx, -⟩ | ⟨m, e, hm, -, -, -, hv⟩
  · exact hx
  · have : (0 : ℚ) < m * 2 ^ e := by positivity
    exact absurd hv.symm this.ne'

theorem InRange.pos {v : ℚ} (h : InRange v) : 0 < v :=
  lt_of_lt_of_le (by positivity) h.1

theorem ne_zero_of_mul_inRange {v w : ℚ} (h : InRange (v * w)) : v ≠ 0 ∧ w ≠ 0 :=
  mul_ne_zero_iff.mp h.pos.ne'

theorem exists_stands_mul {x y : Float} {v w : ℚ} (hx : Stands x v) (hy : Stands y w)
    (hr : InRange (v * w)) : ∃ u, Stands (x * y) u ∧ |u - v * w| ≤ v * w / 2 ^ 52 := by
  obtain ⟨hv0, hw0⟩ := ne_zero_of_mul_inRange hr
  obtain ⟨m, e, hm, hux, hmlow, -, rfl⟩ := hx.exists_finite hv0
  obtain ⟨n, f, hn, huy, hnlow, -, rfl⟩ := hy.exists_finite hw0
  have hmul : (x * y).toModel =
      Float.Model.pack (roundWithAccuracy format .positive (m * n) (e + f) .exact) := by
    show Float.Model.pack (UnpackedFloat.mul format x.toModel.unpack y.toModel.unpack) = _
    rw [hux, huy]
    rfl
  have hvalue : (m : ℚ) * 2 ^ e * (n * 2 ^ f) = ((m * n : ℕ) : ℚ) * 2 ^ (e + f) := by
    rw [zpow_add₀ (by norm_num)]
    push_cast
    ring
  have hlog : 52 ≤ (m * n).log2 := by
    rw [Nat.le_log2 (by positivity)]
    exact le_trans hmlow (Nat.le_mul_of_pos_right m hn)
  rw [hvalue] at hr ⊢
  unfold Stands
  rw [hmul]
  refine exists_denotes_roundWithAccuracy .exact hlog le_rfl ?_ hr
  exact mul_lt_mul_of_pos_right (lt_add_one _) (by positivity)

/-- Two mantissas of full length are divided to 53 more bits. -/
theorem divCore_eq {m n : ℕ} {e f : ℤ} (hm : m.log2 = 52) (hn : n.log2 = 52)
    (hexp : -201 ≤ e - f) :
    divCore format m e n f =
      (m <<< 53 / n, e - f - 53, accuracyOfFraction (m <<< 53 % n) n) := by
  have htarget : min (e - f) (format.targetExponent (totalExponent m e - totalExponent n f)) =
      e - f - 53 := by
    simp only [Format.targetExponent, totalExponent, Format.mantissaBits, Format.minExponent,
      hm, hn]
    norm_num
    omega
  have hshift : (e - f - (e - f - 53)).toNat = 53 := by omega
  simp only [divCore, htarget, hshift]

theorem exists_stands_div {x y : Float} {v w : ℚ} (hx : Stands x v) (hy : Stands y w)
    (hr : InRange (v / w)) : ∃ u, Stands (x / y) u ∧ |u - v / w| ≤ v / w / 2 ^ 52 := by
  obtain ⟨hv0, hw0⟩ := div_ne_zero_iff.mp hr.pos.ne'
  obtain ⟨m, e, hm, hux, hmlow, hmhigh, rfl⟩ := hx.exists_finite hv0
  obtain ⟨n, f, hn, huy, hnlow, hnhigh, rfl⟩ := hy.exists_finite hw0
  have hvalue : (m : ℚ) * 2 ^ e / (n * 2 ^ f) = m / n * 2 ^ (e - f) := by
    rw [zpow_sub₀ (by norm_num)]
    field_simp
  rw [hvalue] at hr ⊢
  have hnpos : (0 : ℚ) < n := by exact_mod_cast hn
  have hmlow' : (2 : ℚ) ^ 52 ≤ m := by exact_mod_cast hmlow
  have hmhigh' : (m : ℚ) < 2 ^ 53 := by exact_mod_cast hmhigh
  have hnlow' : (2 : ℚ) ^ 52 ≤ n := by exact_mod_cast hnlow
  have hnhigh' : (n : ℚ) < 2 ^ 53 := by exact_mod_cast hnhigh
  -- The quotient of two mantissas is between a half and two, so it keeps the exponents small.
  have hexp : -201 ≤ e - f := by
    have hq : (m : ℚ) / n ≤ 2 := by
      rw [div_le_iff₀ hnpos]
      linarith
    have hlt : (2 : ℚ) ^ (-201 : ℤ) ≤ 2 ^ (e - f) := by
      have hpos : (0 : ℚ) < 2 ^ (e - f) := by positivity
      have := le_trans hr.1 (mul_le_mul_of_nonneg_right hq hpos.le)
      rw [show (-200 : ℤ) = -201 + 1 by norm_num, zpow_add_one₀ (by norm_num)] at this
      linarith
    exact (zpow_le_zpow_iff_right₀ (by norm_num : (1 : ℚ) < 2)).mp hlt
  have hcore := divCore_eq (log2_eq_of_bounds hmlow hmhigh) (log2_eq_of_bounds hnlow hnhigh) hexp
  set acc := accuracyOfFraction (m <<< 53 % n) n
  have hdiv : (x / y).toModel =
      Float.Model.pack (roundWithAccuracy format .positive (m <<< 53 / n) (e - f - 53) acc) := by
    show Float.Model.pack (UnpackedFloat.div format x.toModel.unpack y.toModel.unpack) = _
    rw [hux, huy]
    show Float.Model.pack (match divCore format m e n f with
      | (q, g, acc) => roundWithAccuracy format .positive q g acc) = _
    rw [hcore]
  have hlog : 52 ≤ (m <<< 53 / n).log2 := by
    have hquot : 2 ^ 52 ≤ m <<< 53 / n := by
      rw [Nat.le_div_iff_mul_le hn, Nat.shiftLeft_eq]
      calc 2 ^ 52 * n ≤ 2 ^ 52 * 2 ^ 53 := Nat.mul_le_mul_left _ hnhigh.le
        _ ≤ m * 2 ^ 53 := Nat.mul_le_mul_right _ hmlow
    rw [Nat.le_log2 (by omega)]
    exact hquot
  have hunit : (m : ℚ) / n * (2 : ℚ) ^ (e - f) =
      ((m <<< 53 : ℕ) : ℚ) / n * (2 : ℚ) ^ (e - f - 53) := by
    have hsplit : (2 : ℚ) ^ (e - f) = 2 ^ (e - f - 53) * 2 ^ (53 : ℤ) := by
      rw [← zpow_add₀ (by norm_num)]
      congr 1
      ring
    rw [Nat.shiftLeft_eq, hsplit]
    push_cast
    ring
  have hpos : (0 : ℚ) < 2 ^ (e - f - 53) := by positivity
  unfold Stands
  rw [hdiv]
  rw [hunit] at hr ⊢
  refine exists_denotes_roundWithAccuracy acc hlog ?_ ?_ hr
  · exact mul_le_mul_of_nonneg_right Nat.cast_div_le hpos.le
  · refine mul_lt_mul_of_pos_right ?_ hpos
    rw [div_lt_iff₀ hnpos, mul_comm]
    exact_mod_cast Nat.lt_mul_div_succ (m <<< 53) hn

/-- Numbers of full length are added without a shift to the left. -/
theorem normalize_eq {m : ℕ} {e : ℤ} (hm : 52 ≤ m.log2) (hlow : -1022 ≤ m.log2 + e) :
    normalize format (m : ℤ) e .positive = roundWithAccuracy format .positive m e .exact := by
  have hpos := pos_of_log2 hm
  have hshift : (e - ((m.log2 : ℤ) + e - 52)).toNat = 0 := by omega
  unfold UnpackedFloat.normalize
  rw [Int.compare_eq_gt.mpr (by omega)]
  simp only [UnpackedFloat.round, targetExponent_totalExponent hlow, Int.toNat_natCast,
    decreaseExponent, hshift, Nat.shiftLeft_zero, Nat.cast_zero, sub_zero]

theorem stands_mul_zero {x y : Float} {v : ℚ} (hx : Stands x v) (hy : Stands y 0) :
    Stands (x * y) 0 := by
  have hmul : UnpackedFloat.mul format x.toModel.unpack y.toModel.unpack = .zero .positive := by
    rw [hy.eq_zero]
    rcases denotes_iff.mp hx with ⟨hux, -⟩ | ⟨m, e, hm, hux, -⟩
    · rw [hux]
      rfl
    · rw [hux]
      rfl
  show Denotes (Float.Model.pack
    (UnpackedFloat.mul format x.toModel.unpack y.toModel.unpack)).unpack 0
  rw [hmul]
  exact denotes_iff.mpr (Or.inl ⟨rfl, rfl⟩)

theorem stands_add_zero {x y : Float} {v : ℚ} (hx : Stands x v) (hy : Stands y 0) :
    Stands (x + y) v := by
  have hadd : (x + y).toModel =
      Float.Model.pack (UnpackedFloat.add format x.toModel.unpack y.toModel.unpack) := rfl
  have hsame : (x + y).toModel = Float.Model.pack x.toModel.unpack := by
    rw [hadd, hy.eq_zero]
    rcases denotes_iff.mp hx with ⟨hux, -⟩ | ⟨m, e, hm, hux, -⟩
    · rw [hux]
      rfl
    · rw [hux]
      rfl
  have hpack : Float.Model.pack x.toModel.unpack = x.toModel := by
    have hbits := pack_unpack_of_valid x.toModel.valid
    cases hmodel : x.toModel with
    | mk bits valid =>
        rw [hmodel] at hbits
        simp only [Float.Model.pack, Float.Model.unpack, hbits]
  unfold Stands
  rw [hsame, hpack]
  exact hx

theorem exists_stands_add {x y : Float} {v w : ℚ} (hx : Stands x v) (hy : Stands y w)
    (hv : InRange v) (hw : InRange w) (hr : InRange (v + w)) :
    ∃ u, Stands (x + y) u ∧ |u - (v + w)| ≤ (v + w) / 2 ^ 52 := by
  obtain ⟨m, e, hm, hux, hmlow, hmhigh, rfl⟩ := hx.exists_finite hv.pos.ne'
  obtain ⟨n, f, hn, huy, hnlow, hnhigh, rfl⟩ := hy.exists_finite hw.pos.ne'
  set g := min e f with hg
  obtain ⟨i, hi⟩ : ∃ i : ℕ, e = g + i := ⟨(e - g).toNat, by omega⟩
  obtain ⟨j, hj⟩ : ∃ j : ℕ, f = g + j := ⟨(f - g).toNat, by omega⟩
  obtain ⟨p, hp⟩ : ∃ p, p = m <<< i + n <<< j := ⟨_, rfl⟩
  have hvalue : (m : ℚ) * 2 ^ e + n * 2 ^ f = (p : ℚ) * 2 ^ g := by
    rw [hp, hi, hj, zpow_add₀ (by norm_num), zpow_add₀ (by norm_num), zpow_natCast, zpow_natCast,
      Nat.shiftLeft_eq, Nat.shiftLeft_eq]
    push_cast
    ring
  have hmp : m ≤ p := by
    rw [hp, Nat.shiftLeft_eq]
    exact le_trans (Nat.le_mul_of_pos_right m (by positivity)) (Nat.le_add_right _ _)
  have hlog : 52 ≤ p.log2 := by
    rw [Nat.le_log2 (by omega)]
    omega
  rw [hvalue] at hr ⊢
  have hpos : (0 : ℚ) < 2 ^ g := by positivity
  have hnext : (p : ℚ) * 2 ^ g < (p + 1) * 2 ^ g := mul_lt_mul_of_pos_right (lt_add_one _) hpos
  have hlow : -1022 ≤ (p.log2 : ℤ) + g := by
    have habove := (log2_bounds (e := g) (show 0 < p by omega)).2
    have hlt : (2 : ℚ) ^ (-200 : ℤ) < 2 ^ ((p.log2 : ℤ) + g + 1) :=
      lt_of_le_of_lt hr.1 (lt_of_lt_of_le hnext habove)
    have := (zpow_lt_zpow_iff_right₀ (by norm_num : (1 : ℚ) < 2)).mp hlt
    omega
  have hadd : (x + y).toModel =
      Float.Model.pack (roundWithAccuracy format .positive p g .exact) := by
    have hsi : (e - g).toNat = i := by omega
    have hsj : (f - g).toNat = j := by omega
    show Float.Model.pack (UnpackedFloat.add format x.toModel.unpack y.toModel.unpack) = _
    rw [hux, huy, ← normalize_eq hlog hlow]
    show Float.Model.pack (UnpackedFloat.normalize format
      (((m <<< (e - g).toNat : ℕ) : ℤ) + ((n <<< (f - g).toNat : ℕ) : ℤ)) g .positive) = _
    rw [hsi, hsj, hp, Nat.cast_add]
  unfold Stands
  rw [hadd]
  exact exists_denotes_roundWithAccuracy .exact hlog le_rfl hnext hr

/-! ### To and from whole numbers -/

theorem exists_stands_toFloat {n : UInt64} (hn : 0 < n.toNat) (hlarge : n.toNat < 2 ^ 53) :
    ∃ v, Stands n.toFloat v ∧ |v - n.toNat| ≤ (n.toNat : ℚ) / 2 ^ 52 := by
  have hne : n.toNat ≠ 0 := by omega
  have hlog : n.toNat.log2 < 53 := (Nat.log2_lt hne).mpr hlarge
  obtain ⟨m, hm⟩ : ∃ m, m = n.toNat <<< (52 - n.toNat.log2) := ⟨_, rfl⟩
  have hmlow : 2 ^ 52 ≤ m := by
    rw [hm, Nat.shiftLeft_eq]
    calc 2 ^ 52 = 2 ^ n.toNat.log2 * 2 ^ (52 - n.toNat.log2) := by
          rw [← Nat.pow_add]
          congr 1
          omega
      _ ≤ n.toNat * 2 ^ (52 - n.toNat.log2) := Nat.mul_le_mul_right _ (Nat.log2_self_le hne)
  have hvalue : (n.toNat : ℚ) = m * 2 ^ ((n.toNat.log2 : ℤ) - 52) := by
    rw [hm, Nat.shiftLeft_eq]
    push_cast
    rw [mul_assoc, ← zpow_natCast, ← zpow_add₀ (by norm_num)]
    have hzero : ((52 - n.toNat.log2 : ℕ) : ℤ) + ((n.toNat.log2 : ℤ) - 52) = 0 := by omega
    rw [hzero, zpow_zero, mul_one]
  have hfloat : n.toFloat.toModel =
      Float.Model.pack (roundWithAccuracy format .positive m ((n.toNat.log2 : ℤ) - 52) .exact) := by
    have hshift : ((0 : ℤ) - ((n.toNat.log2 : ℤ) + 0 - 52)).toNat = 52 - n.toNat.log2 := by omega
    have hexp : (0 : ℤ) - ((52 - n.toNat.log2 : ℕ) : ℤ) = (n.toNat.log2 : ℤ) - 52 := by omega
    show Float.Model.pack (UnpackedFloat.normalize format ((n.toNat : ℕ) : ℤ) 0 .positive) = _
    unfold UnpackedFloat.normalize
    rw [Int.compare_eq_gt.mpr (by omega)]
    simp only [UnpackedFloat.round, targetExponent_totalExponent (m := n.toNat) (e := 0) (by omega),
      Int.toNat_natCast, decreaseExponent, hshift, ← hm, hexp]
  have hlarge' : (n.toNat : ℚ) < 2 ^ 53 := by exact_mod_cast hlarge
  have hone : (1 : ℚ) ≤ n.toNat := by exact_mod_cast hn
  have hr : InRange (n.toNat : ℚ) := by
    refine ⟨le_trans ?_ hone, le_trans hlarge'.le ?_⟩
    · norm_num
    · norm_num
  unfold Stands
  rw [hfloat]
  refine exists_denotes_roundWithAccuracy .exact ?_ hvalue.ge ?_ hr
  · rw [Nat.le_log2 (by omega)]
    exact hmlow
  · rw [hvalue]
    exact mul_lt_mul_of_pos_right (lt_add_one _) (by positivity)

theorem toInt_eq_floor {u : UnpackedFloat} {v : ℚ} (h : Denotes u v) (low high : ℤ) :
    UnpackedFloat.toInt low high u = ⌊v⌋ := by
  rcases denotes_iff.mp h with ⟨rfl, rfl⟩ | ⟨m, e, hm, rfl, -, -, rfl⟩
  · simp [UnpackedFloat.toInt]
  · show roundToInt .positive m e = _
    have hround : roundToInt .positive m e =
        ((m <<< (e - 0).toNat / 2 ^ (0 - (e - ((e - 0).toNat : ℤ))).toNat : ℕ) : ℤ) := by
      rw [← mantissa_ofMantissaAndAccuracy (m <<< (e - 0).toNat) .exact, ← mantissa_shiftRight]
      rfl
    rw [hround]
    rcases le_total 0 e with hexp | hexp
    · obtain ⟨k, rfl⟩ := Int.eq_ofNat_of_zero_le hexp
      have hfloor : (m : ℚ) * 2 ^ (k : ℤ) = ((m * 2 ^ k : ℕ) : ℤ) := by
        push_cast
        rfl
      rw [hfloor, Int.floor_intCast]
      simp [Nat.shiftLeft_eq]
    · obtain ⟨k, hk⟩ := Int.eq_ofNat_of_zero_le (show 0 ≤ -e by omega)
      have hleft : (e - 0).toNat = 0 := by omega
      have hright : (0 - (e - ((0 : ℕ) : ℤ))).toNat = k := by omega
      have hdiv : (m : ℚ) * 2 ^ e = (m : ℚ) / ((2 ^ k : ℕ) : ℚ) := by
        rw [show e = -(k : ℤ) by omega, zpow_neg, zpow_natCast, div_eq_mul_inv]
        push_cast
        rfl
      rw [hleft, hright, Nat.shiftLeft_zero, hdiv, Rat.floor_natCast_div_natCast,
        Int.natCast_ediv]

theorem truncate_eq_floor {x : Float} {v : ℚ} (h : Stands x v) (hv : v < 2 ^ 63) :
    Arithmetic.truncate x = ⌊v⌋ := by
  show (Int64.ofIntClamp (UnpackedFloat.toInt _ _ x.toModel.unpack)).toInt = _
  rw [toInt_eq_floor h]
  refine Int64.toInt_ofIntClamp ?_ ?_
  · have hfloor : (0 : ℤ) ≤ ⌊v⌋ := Int.floor_nonneg.mpr h.nonneg
    have hmin : Int64.minValue.toInt = -9223372036854775808 := rfl
    omega
  · have hfloor : ⌊v⌋ < 2 ^ 63 := Int.floor_lt.mpr (by exact_mod_cast hv)
    have hmax : Int64.maxValue.toInt = 9223372036854775807 := rfl
    omega

end Rounding

end Framecast
