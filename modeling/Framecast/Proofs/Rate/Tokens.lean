/-
A token bucket in exact arithmetic.

Over the rationals the operations of a bucket are the expected ones (`level_eq`): what is there
at a moment is what was there before, plus what the rate gave since, up to the capacity.  One
step of a bucket changes the rate or tries to take tokens; either way what is there after
it, together with what was taken, is no more than what was there at that moment
(`tokens_after_add_grants`).  An attempt that fails says how long the rest takes to come, and
that long after it the rest is there: a charge is never more than the capacity, so the
bucket does not overflow before (`Kept.take_later`).
-/
import Mathlib.Tactic.Linarith
import Mathlib.Tactic.Positivity
import Mathlib.Tactic.Ring
import Framecast.Rate.Bucket

namespace Framecast

instance : Scalar ℚ where
  ofNat n := (n : ℚ)
  decideLe _ _ := inferInstance

namespace Scalar

theorem lesser_eq_min (a b : ℚ) : lesser a b = min a b :=
  (min_def a b).symm

theorem greater_eq_max (a b : ℚ) : greater a b = max a b :=
  (max_def a b).symm

theorem seconds_eq (ns : Nat) : (seconds ns : ℚ) = ns / 1000000000 := by
  have hsecond : Time.second = 1000000000 := rfl
  have hsplit : (ns : ℚ) = 1000000000 * (ns / 1000000000 : Nat) + (ns % 1000000000 : Nat) := by
    exact_mod_cast (Nat.div_add_mod ns 1000000000).symm
  have hseconds : (seconds ns : ℚ) =
      ((ns / Time.second : Nat) : ℚ) + ((ns % Time.second : Nat) : ℚ) / (Time.second : Nat) := rfl
  rw [hseconds, hsecond, hsplit]
  push_cast
  ring

/-- A span between two moments in seconds. -/
theorem seconds_elapsed {start now : Int} (h : start ≤ now) :
    (seconds (Time.elapsed start now) : ℚ) = (now - start) / 1000000000 := by
  have hspan : ((Time.elapsed start now : Nat) : Int) = now - start :=
    Int.toNat_of_nonneg (by omega)
  have hcast : ((Time.elapsed start now : Nat) : ℚ) = now - start := by exact_mod_cast hspan
  rw [seconds_eq, hcast]

end Scalar

namespace Bucket

/-! ### What is there -/

/-- The tokens of a bucket at a moment. -/
def level (b : Bucket ℚ) (now : Int) : ℚ :=
  (b.fill now).tokens

theorem level_eq {b : Bucket ℚ} {now : Int} (h : b.filled ≤ now) :
    b.level now = min (b.tokens + (now - b.filled) / 1000000000 * b.rate) b.capacity := by
  rw [← Scalar.seconds_elapsed h, ← Scalar.lesser_eq_min]
  rfl

/-- What holds of a bucket at all times. -/
structure Kept (b : Bucket ℚ) : Prop where
  rate_pos : 0 < b.rate
  tokens_nonneg : 0 ≤ b.tokens
  tokens_le : b.tokens ≤ b.capacity
  /-- A whole datagram fits in. -/
  datagram_le : (Sealed.maxSize : ℚ) ≤ b.capacity

theorem byteRate_pos (bitrate : Nat) : (0 : ℚ) < byteRate bitrate := by
  have hrate : (byteRate bitrate : ℚ) = ((max bitrate 1 : Nat) : ℚ) / ((8 : Nat) : ℚ) := rfl
  have hpos : (0 : ℚ) < ((max bitrate 1 : Nat) : ℚ) := by
    exact_mod_cast Nat.lt_of_lt_of_le Nat.one_pos (Nat.le_max_right _ _)
  rw [hrate]
  positivity

theorem datagram_le_capacityAt (rate : ℚ) : (Sealed.maxSize : ℚ) ≤ capacityAt rate := by
  rw [capacityAt, Scalar.greater_eq_max]
  exact le_max_right _ _

theorem kept_full (bitrate : Nat) (now : Int) : (full bitrate now : Bucket ℚ).Kept where
  rate_pos := byteRate_pos bitrate
  tokens_nonneg := le_trans (Nat.cast_nonneg Sealed.maxSize) (datagram_le_capacityAt _)
  tokens_le := le_refl _
  datagram_le := datagram_le_capacityAt _

namespace Kept

variable {b : Bucket ℚ}

theorem capacity_nonneg (h : b.Kept) : 0 ≤ b.capacity :=
  le_trans h.tokens_nonneg h.tokens_le

theorem fill (h : b.Kept) (now : Int) : (b.fill now).Kept where
  rate_pos := h.rate_pos
  tokens_nonneg := by
    have hspan : (0 : ℚ) ≤ Scalar.seconds (Time.elapsed b.filled now) := by
      rw [Scalar.seconds_eq]
      positivity
    have hgrown := add_nonneg h.tokens_nonneg (mul_nonneg hspan h.rate_pos.le)
    show 0 ≤ Scalar.lesser _ _
    rw [Scalar.lesser_eq_min]
    exact le_min hgrown h.capacity_nonneg
  tokens_le := by
    show Scalar.lesser _ _ ≤ b.capacity
    rw [Scalar.lesser_eq_min]
    exact min_le_right _ _
  datagram_le := h.datagram_le

theorem setRate (h : b.Kept) (bitrate : Nat) (now : Int) : (b.setRate bitrate now).Kept where
  rate_pos := byteRate_pos bitrate
  tokens_nonneg := by
    show 0 ≤ Scalar.lesser _ _
    rw [Scalar.lesser_eq_min]
    exact le_min (h.fill now).tokens_nonneg (kept_full bitrate now).tokens_nonneg
  tokens_le := by
    show Scalar.lesser _ _ ≤ _
    rw [Scalar.lesser_eq_min]
    exact min_le_right _ _
  datagram_le := datagram_le_capacityAt _

/-- Right after it was filled a bucket holds its tokens. -/
theorem level_filled (h : b.Kept) : b.level b.filled = b.tokens := by
  rw [level_eq (le_refl _), sub_self, zero_div, zero_mul, add_zero]
  exact min_eq_left h.tokens_le

theorem level_le (h : b.Kept) (now : Int) : b.level now ≤ b.capacity :=
  (h.fill now).tokens_le

/-- **No more comes in than the rate gives.** -/
theorem level_le_add (h : b.Kept) {now later : Int} (hnow : b.filled ≤ now) (hlater : now ≤ later) :
    b.level later ≤ b.level now + (later - now) / 1000000000 * b.rate := by
  have hspan : (0 : ℚ) ≤ later - now := by
    have hcast : (now : ℚ) ≤ later := by exact_mod_cast hlater
    linarith
  have hgrown : 0 ≤ (later - now) / 1000000000 * b.rate :=
    mul_nonneg (div_nonneg hspan (by norm_num)) h.rate_pos.le
  have hsplit : b.tokens + (later - b.filled) / 1000000000 * b.rate =
      b.tokens + (now - b.filled) / 1000000000 * b.rate +
        (later - now) / 1000000000 * b.rate := by ring
  rw [level_eq hnow, level_eq (le_trans hnow hlater), hsplit, ← min_add_add_right]
  exact min_le_min (le_refl _) (le_add_of_nonneg_right hgrown)

end Kept

/-! ### Taking -/

theorem charge_eq (b : Bucket ℚ) (bytes : Nat) : b.charge bytes = min (bytes : ℚ) b.capacity :=
  Scalar.lesser_eq_min _ _

theorem take_of_le {b : Bucket ℚ} {charge : ℚ} {now : Int} (h : charge ≤ b.level now) :
    b.take charge now = (none, { b.fill now with tokens := b.level now - charge }) :=
  if_pos h

theorem take_of_lt {b : Bucket ℚ} {charge : ℚ} {now : Int} (h : b.level now < charge) :
    b.take charge now = (some ((charge - b.level now) / b.rate), b.fill now) :=
  if_neg (not_le.mpr h)

/-- Taking changes the tokens and the moment they are up to date with, nothing else. -/
theorem take_snd (b : Bucket ℚ) (charge : ℚ) (now : Int) :
    (b.take charge now).2 = { b.fill now with tokens := (b.take charge now).2.tokens } := by
  rcases le_or_gt charge (b.level now) with hle | hlt
  · rw [take_of_le hle]
  · rw [take_of_lt hlt]

theorem Kept.take {b : Bucket ℚ} (h : b.Kept) (bytes : Nat) (now : Int) :
    (b.take (b.charge bytes) now).2.Kept := by
  have hfill := h.fill now
  have hcharge : 0 ≤ b.charge bytes := by
    rw [charge_eq]
    exact le_min (Nat.cast_nonneg bytes) h.capacity_nonneg
  rcases le_or_gt (b.charge bytes) (b.level now) with hle | hlt
  · rw [take_of_le hle]
    have hlevel := h.level_le now
    exact ⟨h.rate_pos, sub_nonneg.mpr hle, by show b.level now - _ ≤ b.capacity; linarith,
      h.datagram_le⟩
  · rw [take_of_lt hlt]
    exact hfill

/-- **A request that is refused is granted as long after as it is told to wait,** if nothing else
happens meanwhile.  However large it is, it never has to wait for more than a whole bucket. -/
theorem Kept.take_later {b : Bucket ℚ} (h : b.Kept) {bytes : Nat} {now : Int} {wait : ℚ}
    (hwait : (b.take (b.charge bytes) now).1 = some wait) :
    let c := (b.take (b.charge bytes) now).2
    wait = (min (bytes : ℚ) b.capacity - c.tokens) / b.rate ∧ wait ≤ b.capacity / b.rate ∧
      c.filled = now ∧
      ∀ later, now ≤ later → wait ≤ (later - now) / 1000000000 →
        (c.take (c.charge bytes) later).1 = none := by
  rcases le_or_gt (b.charge bytes) (b.level now) with hle | hlt
  · rw [take_of_le hle] at hwait
    cases hwait
  rw [take_of_lt hlt, Option.some.injEq] at hwait
  rw [take_of_lt hlt]
  have hcharge := b.charge_eq bytes
  have htokens : (b.fill now).tokens = b.level now := rfl
  have hfilled : (b.fill now).filled = now := rfl
  have hnonneg : 0 ≤ b.level now := (h.fill now).tokens_nonneg
  have hmost : b.charge bytes ≤ b.capacity := by
    rw [hcharge]
    exact min_le_right _ _
  refine ⟨by rw [← hwait, htokens, hcharge], ?_, hfilled, fun later hlater hslept => ?_⟩
  · rw [← hwait]
    exact div_le_div_of_nonneg_right (by linarith) h.rate_pos.le
  · have hcame : b.charge bytes - b.level now ≤ (later - now) / 1000000000 * b.rate := by
      rw [← hwait, div_le_iff₀ h.rate_pos] at hslept
      exact hslept
    have hthere : (b.fill now).charge bytes ≤ (b.fill now).level later := by
      rw [level_eq (by rw [hfilled]; exact hlater)]
      show b.charge bytes ≤ min (b.level now + (later - now) / 1000000000 * b.rate) b.capacity
      exact le_min (by linarith) hmost
    rw [take_of_le hthere]

/-! ### One step -/

/-- What is done to a bucket. -/
inductive Act where
  /-- The rate changes, in bits per second. -/
  | setRate (bitrate : UInt32)
  /-- Bytes are asked for once. -/
  | attempt (bytes : Nat)
  deriving DecidableEq

/-- What is done to a bucket, and when. -/
abbrev Step := Int × Act

/-- The bucket after a step. -/
def after (b : Bucket ℚ) : Step → Bucket ℚ
  | (now, .setRate bitrate) => b.setRate bitrate.toNat now
  | (now, .attempt bytes) => (b.take (b.charge bytes) now).2

/-- What a step is granted: what the bytes are counted as, if they are there. -/
def grants (b : Bucket ℚ) : Step → ℚ
  | (_, .setRate _) => 0
  | (now, .attempt bytes) =>
    if (b.take (b.charge bytes) now).1.isNone then b.charge bytes else 0

theorem filled_after (b : Bucket ℚ) (s : Step) : (b.after s).filled = s.1 := by
  obtain ⟨now, act⟩ := s
  cases act with
  | setRate bitrate => rfl
  | attempt bytes =>
      rw [after, take_snd]
      rfl

theorem Kept.after {b : Bucket ℚ} (h : b.Kept) (s : Step) : (b.after s).Kept := by
  obtain ⟨now, act⟩ := s
  cases act with
  | setRate bitrate => exact h.setRate bitrate.toNat now
  | attempt bytes => exact h.take bytes now

/-- **What is left after a step and what it was granted were there before.** -/
theorem tokens_after_add_grants (b : Bucket ℚ) (s : Step) :
    (b.after s).tokens + b.grants s ≤ b.level s.1 := by
  obtain ⟨now, act⟩ := s
  cases act with
  | setRate bitrate =>
      show Scalar.lesser (b.level now) _ + 0 ≤ b.level now
      rw [Scalar.lesser_eq_min, add_zero]
      exact min_le_left _ _
  | attempt bytes =>
      rcases le_or_gt (b.charge bytes) (b.level now) with hle | hlt
      · rw [after, grants, take_of_le hle]
        show b.level now - b.charge bytes + b.charge bytes ≤ b.level now
        rw [sub_add_cancel]
      · rw [after, grants, take_of_lt hlt]
        show b.level now + 0 ≤ b.level now
        rw [add_zero]

end Bucket

end Framecast
