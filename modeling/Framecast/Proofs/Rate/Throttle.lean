/-
A throttle keeps to its rate.

`Tokens.lean` follows a bucket through one step.  Here it is followed through any number of them,
changes of the rate and attempts of any number of callers in whatever order they come.  The
clock counts whole nanoseconds and never runs back, so the rate is the same throughout a
nanosecond, and what it gives between two moments is the sum over the nanoseconds between
them (`supply`).

The bound on what is granted telescopes: what is there after a step, and what the step was
granted, were there before it, and from one step to the next no more comes in than the rate
gives.  Changes of the rate need no case of their own: tokens are lost with them, never gained.

A caller that is refused sleeps and tries again.  If it sleeps no less than it was told, and
nobody else comes in between, its second attempt is the last.
-/
import Mathlib.Algebra.BigOperators.Intervals
import Mathlib.Data.List.Induction
import Framecast.Cipher.Sealed
import Framecast.Connection.Pace
import Framecast.Packet.Basic
import Framecast.Proofs.Rate.Tokens

namespace Framecast

namespace Bucket

/-! ### Steps in a row -/

/-- The bucket after some steps. -/
def run (b : Bucket ℚ) (steps : List Step) : Bucket ℚ :=
  steps.foldl after b

/-- What some steps are granted. -/
def granted (b : Bucket ℚ) : List Step → ℚ
  | [] => 0
  | s :: rest => b.grants s + (b.after s).granted rest

theorem run_concat (b : Bucket ℚ) (steps : List Step) (s : Step) :
    b.run (steps ++ [s]) = (b.run steps).after s := by
  rw [run, List.foldl_append]
  rfl

theorem granted_concat (b : Bucket ℚ) (steps : List Step) (s : Step) :
    b.granted (steps ++ [s]) = b.granted steps + (b.run steps).grants s := by
  induction steps generalizing b with
  | nil => simp [granted, run]
  | cons t rest ih =>
      rw [List.cons_append, granted, granted, ih, add_assoc]
      rfl

/-- **Every run keeps the tokens within the capacity.** -/
theorem Kept.run {b : Bucket ℚ} (h : b.Kept) (steps : List Step) : (b.run steps).Kept := by
  induction steps generalizing b with
  | nil => exact h
  | cons s rest ih => exact ih (h.after s)

/-- The steps come in the order of their moments, none of them before `start`. -/
def InOrder (start : Int) (steps : List Step) : Prop :=
  (start :: steps.map Prod.fst).Pairwise (· ≤ ·)

namespace InOrder

variable {start : Int} {steps more : List Step}

theorem start_le (h : InOrder start steps) : ∀ s ∈ steps, start ≤ s.1 := by
  intro s hs
  exact (List.pairwise_cons.mp h).1 s.1 (List.mem_map_of_mem hs)

theorem append_left (h : InOrder start (steps ++ more)) : InOrder start steps := by
  refine h.sublist (List.Sublist.cons_cons start ?_)
  rw [List.map_append]
  exact List.sublist_append_left _ _

/-- No step comes before one that precedes it. -/
theorem le_last {s : Step} (h : InOrder start (steps ++ [s])) : ∀ t ∈ steps, t.1 ≤ s.1 := by
  intro t ht
  have hlate := (List.pairwise_cons.mp h).2
  rw [List.map_append, List.pairwise_append] at hlate
  exact hlate.2.2 t.1 (List.mem_map_of_mem ht) s.1 (List.mem_singleton.mpr rfl)

theorem from_later (h : InOrder start (steps ++ more)) {t : Int} (ht : ∀ s ∈ more, t ≤ s.1) :
    InOrder t more := by
  have hmore := (List.pairwise_cons.mp h).2
  rw [List.map_append, List.pairwise_append] at hmore
  refine List.pairwise_cons.mpr ⟨fun x hx => ?_, hmore.2.1⟩
  obtain ⟨s, hs, rfl⟩ := List.mem_map.mp hx
  exact ht s hs

end InOrder

/-! ### What the rate gives -/

/-- The bitrate after some steps. -/
def lastBitrate (bitrate : UInt32) (steps : List Step) : UInt32 :=
  steps.foldl (fun r s => match s.2 with | .setRate bitrate => bitrate | .attempt _ => r) bitrate

/-- The rate at a moment, that of the last change up to it. -/
def rateAt (bitrate : UInt32) (steps : List Step) (t : Int) : ℚ :=
  byteRate (lastBitrate bitrate (steps.filter fun s => s.1 ≤ t)).toNat

/-- The bytes that the rate gives between two moments, nanosecond by nanosecond. -/
def supply (bitrate : UInt32) (steps : List Step) (first last : Int) : ℚ :=
  ∑ k ∈ Finset.range (last - first).toNat, rateAt bitrate steps (first + k) / 1000000000

section Supply

variable {bitrate : UInt32} {steps more : List Step} {first mid last : Int}

theorem supply_add (hfirst : first ≤ mid) (hlast : mid ≤ last) :
    supply bitrate steps first last =
      supply bitrate steps first mid + supply bitrate steps mid last := by
  have hspan : (last - first).toNat = (mid - first).toNat + (last - mid).toNat := by omega
  have hmid (k : Nat) : first + (((mid - first).toNat + k : Nat) : Int) = mid + k := by omega
  rw [supply, hspan, Finset.sum_range_add]
  simp only [hmid]
  rfl

/-- Later steps give nothing to what was before them. -/
theorem supply_append (h : ∀ s ∈ more, last ≤ s.1) :
    supply bitrate (steps ++ more) first last = supply bitrate steps first last := by
  refine Finset.sum_congr rfl fun k hk => ?_
  have hlt := Finset.mem_range.mp hk
  have hnone : more.filter (fun s => decide (s.1 ≤ first + k)) = [] := by
    refine List.filter_eq_nil_iff.mpr fun s hs => ?_
    have hlate := h s hs
    simp only [decide_eq_true_eq]
    omega
  rw [rateAt, List.filter_append, hnone, List.append_nil, rateAt]

/-- After the last step the rate stays as it is. -/
theorem supply_of_quiet (h : ∀ s ∈ steps, s.1 ≤ first) (hlast : first ≤ last) :
    supply bitrate steps first last =
      (last - first) / 1000000000 * byteRate (lastBitrate bitrate steps).toNat := by
  have hsame (k : Nat) : rateAt bitrate steps (first + k) =
      byteRate (lastBitrate bitrate steps).toNat := by
    have hall : steps.filter (fun s => decide (s.1 ≤ first + k)) = steps := by
      refine List.filter_eq_self.mpr fun s hs => ?_
      have hbefore := h s hs
      simp only [decide_eq_true_eq]
      omega
    rw [rateAt, hall]
  have hspan : (((last - first).toNat : Nat) : Int) = last - first :=
    Int.toNat_of_nonneg (by omega)
  have hcast : (((last - first).toNat : Nat) : ℚ) = last - first := by exact_mod_cast hspan
  simp only [supply, hsame, Finset.sum_const, Finset.card_range, nsmul_eq_mul, hcast]
  ring

end Supply

/-! ### The bound -/

/-- The bucket after some steps, none of them later than `now`. -/
structure Reached (b : Bucket ℚ) (bitrate : UInt32) (steps : List Step) (now : Int) : Prop
    extends Kept b where
  rate_eq : b.rate = byteRate (lastBitrate bitrate steps).toNat
  filled_le : b.filled ≤ now
  past : ∀ s ∈ steps, s.1 ≤ now

namespace Reached

variable {b : Bucket ℚ} {bitrate : UInt32} {steps during : List Step} {start now : Int}

theorem full (bitrate : UInt32) (now : Int) :
    (Bucket.full bitrate.toNat now : Bucket ℚ).Reached bitrate [] now where
  toKept := kept_full bitrate.toNat now
  rate_eq := rfl
  filled_le := le_refl _
  past _ hs := absurd hs List.not_mem_nil

theorem mono (h : b.Reached bitrate steps start) (hnow : start ≤ now) :
    b.Reached bitrate steps now :=
  ⟨h.toKept, h.rate_eq, le_trans h.filled_le hnow, fun s hs => le_trans (h.past s hs) hnow⟩

theorem after (h : b.Reached bitrate steps start) {s : Step} (hs : start ≤ s.1) :
    (b.after s).Reached bitrate (steps ++ [s]) s.1 where
  toKept := h.toKept.after s
  rate_eq := by
    rw [lastBitrate, List.foldl_append]
    obtain ⟨now, act⟩ := s
    cases act with
    | setRate r => rfl
    | attempt bytes =>
        rw [Bucket.after, take_snd]
        exact h.rate_eq
  filled_le := le_of_eq (filled_after b s)
  past t ht := by
    rcases List.mem_append.mp ht with hold | hnew
    · exact le_trans (h.past t hold) hs
    · rw [List.mem_singleton.mp hnew]

theorem run (h : b.Reached bitrate steps start) (horder : InOrder start during)
    (hend : ∀ s ∈ during, s.1 ≤ now) (hnow : start ≤ now) :
    (b.run during).Reached bitrate (steps ++ during) now := by
  induction during using List.reverseRecOn generalizing now with
  | nil =>
      rw [List.append_nil]
      exact h.mono hnow
  | append_singleton during s ih =>
      have hs := horder.start_le s List.mem_concat_self
      have hlast := hend s List.mem_concat_self
      rw [run_concat, ← List.append_assoc]
      exact ((ih horder.append_left horder.le_last hs).after (le_refl _)).mono hlast

/-- While nothing happens, no more comes in than the rate gives. -/
theorem level_le_add_supply (h : b.Reached bitrate steps start) (hnow : start ≤ now) :
    b.level now ≤ b.level start + supply bitrate steps start now := by
  rw [supply_of_quiet h.past hnow, ← h.rate_eq]
  exact h.toKept.level_le_add h.filled_le hnow

/-- **What was granted and what is left were there, or the rate gave it.** -/
theorem granted_add_level_le (h : b.Reached bitrate steps start) (horder : InOrder start during)
    (hend : ∀ s ∈ during, s.1 ≤ now) (hnow : start ≤ now) :
    b.granted during + (b.run during).level now ≤
      b.level start + supply bitrate (steps ++ during) start now := by
  induction during using List.reverseRecOn generalizing now with
  | nil =>
      rw [List.append_nil, granted, zero_add]
      exact h.level_le_add_supply hnow
  | append_singleton during s ih =>
      have hs := horder.start_le s List.mem_concat_self
      have hlast := hend s List.mem_concat_self
      have hbefore := h.run horder.append_left horder.le_last hs
      have hafter := hbefore.after (le_refl s.1)
      have hsupply : supply bitrate (steps ++ (during ++ [s])) start now =
          supply bitrate (steps ++ during) start s.1 +
            supply bitrate (steps ++ during ++ [s]) s.1 now := by
        rw [supply_add hs hlast, ← List.append_assoc, supply_append]
        intro t ht
        rw [List.mem_singleton.mp ht]
      have hsofar := ih horder.append_left horder.le_last hs
      have hstep := tokens_after_add_grants (b.run during) s
      have hfilled := hafter.toKept.level_filled
      rw [filled_after] at hfilled
      have hquiet := hafter.level_le_add_supply hlast
      rw [granted_concat, run_concat, hsupply]
      linarith

end Reached

/-! ### Waiting alone -/

/-- A sleep lasts at least as long as it should. -/
theorem add_span_le_sleep (n : Network) (span : Nat) : n.now + span ≤ (n.sleep span).now := by
  unfold Network.sleep
  split
  · omega
  · show n.now + (span : Int) ≤ n.now + ((span + Network.oversleep : Nat) : Int)
    omega

/-- **A caller that sleeps as long as it is told and is left alone waits at most once.** -/
theorem Kept.waitFor_twice {b : Bucket ℚ} (h : b.Kept) {span : ℚ → Nat}
    (hspan : ∀ wait, wait * 1000000000 ≤ span wait) (bytes : Nat) (n : Network) :
    ∃ (c : Bucket ℚ) (m : Network), (c.take (c.charge bytes) m.now).1 = none ∧
      ∀ attempts, waitFor span bytes (attempts + 2) b n = ((c.take (c.charge bytes) m.now).2, m) := by
  cases htake : b.take (b.charge bytes) n.now with
  | mk refused c =>
      cases refused with
      | none =>
          refine ⟨b, n, by rw [htake], fun attempts => ?_⟩
          rw [waitFor, htake]
      | some wait =>
          have hrefused : (b.take (b.charge bytes) n.now).1 = some wait := by rw [htake]
          obtain ⟨-, -, -, hgranted⟩ := h.take_later hrefused
          rw [htake] at hgranted
          have hslept := add_span_le_sleep n (span wait)
          have hlong : wait ≤ (((n.sleep (span wait)).now : Int) - n.now) / 1000000000 := by
            have hcast : ((n.now : ℚ) + (span wait : ℚ)) ≤ ((n.sleep (span wait)).now : Int) := by
              exact_mod_cast hslept
            rw [le_div_iff₀ (by norm_num)]
            linarith [hspan wait]
          have hnone := hgranted (n.sleep (span wait)).now (by omega) hlong
          refine ⟨c, n.sleep (span wait), hnone, fun attempts => ?_⟩
          rw [waitFor, htake]
          show waitFor span bytes (attempts + 1) c (n.sleep (span wait)) = _
          rw [waitFor]
          cases hagain : c.take (c.charge bytes) (n.sleep (span wait)).now with
          | mk refused d =>
              rw [hagain] at hnone
              cases hnone
              rfl

/-! ### The throttle -/

/-- **A throttle keeps to its rate.**  Whatever was asked of it and however its rate was changed,
at moments that come in order:

* the tokens are not negative and not more than the capacity, which holds a datagram;
* what is granted between two moments is no more than the capacity at the first of them and
  what the rate gives until the second, whichever steps at these very moments are counted in;
* a request that is refused is told how long the rest of its bytes takes to come, no more than a
  whole bucket does, and is granted as long after if nothing else happens meanwhile;
* so a caller that sleeps no less than that and is left alone waits at most once, however much
  it asks for.
-/
theorem throttle_keeps_to_rate (bitrate : UInt32) (start : Int) (steps : List Step)
    (horder : InOrder start steps) :
    let opened : Bucket ℚ := full bitrate.toNat start
    let b := opened.run steps
    (0 ≤ b.tokens ∧ b.tokens ≤ b.capacity ∧ (Sealed.maxSize : ℚ) ≤ b.capacity) ∧
    (∀ before during later first last, steps = before ++ during ++ later →
      start ≤ first → first ≤ last → (∀ s ∈ before, s.1 ≤ first) →
      (∀ s ∈ during, first ≤ s.1 ∧ s.1 ≤ last) → (∀ s ∈ later, last ≤ s.1) →
      (opened.run before).granted during ≤
        (opened.run before).capacity + supply bitrate steps first last) ∧
    (∀ bytes now wait, (b.take (b.charge bytes) now).1 = some wait →
      let c := (b.take (b.charge bytes) now).2
      wait = (min (bytes : ℚ) b.capacity - c.tokens) / b.rate ∧ wait ≤ b.capacity / b.rate ∧
      ∀ later, now ≤ later → wait ≤ (later - now) / 1000000000 →
        (c.take (c.charge bytes) later).1 = none) ∧
    ∀ span : ℚ → Nat, (∀ wait, wait * 1000000000 ≤ span wait) → ∀ (bytes : Nat) (n : Network),
      ∃ (c : Bucket ℚ) (m : Network), (c.take (c.charge bytes) m.now).1 = none ∧
        ∀ attempts,
          waitFor span bytes (attempts + 2) b n = ((c.take (c.charge bytes) m.now).2, m) := by
  intro opened b
  have hopened : opened.Reached bitrate [] start := Reached.full bitrate start
  have hkept : b.Kept := (kept_full bitrate.toNat start).run steps
  refine ⟨⟨hkept.tokens_nonneg, hkept.tokens_le, hkept.datagram_le⟩, ?_, ?_, ?_⟩
  · rintro before during later first last rfl hfirst hlast hbefore hduring hlater
    have hearly := hopened.run horder.append_left.append_left hbefore hfirst
    have hlate := horder.append_left.from_later fun s hs => (hduring s hs).1
    have hbound := hearly.granted_add_level_le hlate (fun s hs => (hduring s hs).2) hlast
    have hrest := (hearly.run hlate (fun s hs => (hduring s hs).2) hlast).toKept
    have hnonneg : 0 ≤ ((opened.run before).run during).level last := (hrest.fill last).tokens_nonneg
    have hlevel := hearly.level_le first
    rw [List.nil_append] at hbound
    rw [supply_append hlater]
    linarith
  · intro bytes now wait hwait
    obtain ⟨hfor, hmost, -, hlater⟩ := hkept.take_later hwait
    exact ⟨hfor, hmost, hlater⟩
  · intro span hspan bytes n
    exact hkept.waitFor_twice hspan bytes n

/-- A throttle of ten thousand bytes per second, slowed to two thousand after a millisecond, that
is asked for more than it holds. -/
theorem slowed_throttle_keeps_to_rate :
    let steps : List Step :=
      [(0, .attempt 1327), (1000000, .setRate 16000), (2000000, .attempt 5000)]
    let opened : Bucket ℚ := full 80000 0
    let b := opened.run steps
    let c := (b.take (b.charge 5000) 2000000).2
    InOrder 0 steps ∧ opened.granted steps = 1327 ∧
      opened.granted steps ≤ opened.capacity + supply 80000 steps 0 2000000 ∧
      (b.take (b.charge 5000) 2000000).1 = some (1315 / 2000) ∧
      (c.take (c.charge 5000) 659500000).1 = none := by
  intro steps opened b c
  have horder : InOrder 0 steps := by simp [InOrder, steps]
  have hrefused : (b.take (b.charge 5000) 2000000).1 = some (1315 / 2000) := by decide +kernel
  obtain ⟨-, hbound, hlater, -⟩ := throttle_keeps_to_rate 80000 0 steps horder
  refine ⟨horder, by decide +kernel, ?_, hrefused, ?_⟩
  · exact hbound [] steps [] 0 2000000 (List.append_nil steps).symm (by decide) (by decide)
      (by decide) (by decide) (by decide)
  · exact (hlater 5000 2000000 _ hrefused).2.2 659500000 (by decide) (by norm_num)

end Bucket

end Framecast
