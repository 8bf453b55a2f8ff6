/-
When skipped frames lower the burst rate.

The burst rate that is asked for is the burst expectation, which every period leaves in
bounds.  A period that skipped frames observes less than was expected, and less makes an
expectation smaller on either way down: back to a proven value, or blended.  Only a period
in which nothing at all was rendered is not taken for an observation.
-/
import Framecast.Proofs.Rate.Precision
import Framecast.Proofs.Rate.Settings

namespace Framecast

/-- An observation of less lowers an expectation, whether it falls back to a proven value
or is blended with what was observed. -/
theorem Expectation.observe_expected_lt {e : Expectation} {estimate : Int}
    {arithmetic : Arithmetic} (hless : estimate < e.expected)
    (hblend : arithmetic.blend e.expected estimate < e.expected) :
    (e.observe estimate arithmetic).expected < e.expected := by
  unfold Expectation.observe
  rw [if_neg hless.ne]
  cases e.proven with
  | none => exact hblend
  | some good =>
    by_cases hgood : e.expected > good
    · simp only [if_pos hgood]
      exact hgood
    · simp only [if_neg hgood]
      exact hblend

namespace Controller

theorem clamp_lt {lo hi : Nat} {rate bound : Int} (hrate : rate < bound) (hlo : lo < bound) :
    clamp lo hi rate < bound :=
  max_lt hlo (lt_of_le_of_lt (min_le_left _ _) hrate)

section

variable (c : Controller) (s : Statistics) (arithmetic : Arithmetic)

@[simp] theorem followArrivals_policy : (c.followArrivals s arithmetic).policy = c.policy := by
  unfold followArrivals
  split <;> rfl

@[simp] theorem followArrivals_burst : (c.followArrivals s arithmetic).burst = c.burst := by
  unfold followArrivals
  split <;> rfl

@[simp] theorem followArrivals_current_burst :
    (c.followArrivals s arithmetic).current.burst = c.current.burst := by
  unfold followArrivals
  split <;> rfl

@[simp] theorem followFrames_policy : (c.followFrames s arithmetic).policy = c.policy := by
  unfold followFrames
  split <;> rfl

/-- A period in which nothing was rendered is no observation of frames. -/
theorem followFrames_of_not_rendered (h : s.rendered = 0) : c.followFrames s arithmetic = c := by
  unfold followFrames
  rw [if_neg (by rw [h]; decide)]

end

/-- A controller by the ratio policy whose burst rate is its burst expectation, in bounds. -/
structure FollowsBurst (c : Controller) : Prop where
  policy : c.policy = .ratio
  ge : (Settings.minBitrate : Int) ≤ c.burst.expected
  le : c.burst.expected ≤ Settings.startBurst
  held : (c.current.burst.toNat : Int) = c.burst.expected

section

variable {c : Controller} {s : Statistics} {arithmetic : Arithmetic}

theorem FollowsBurst.followArrivals (h : c.FollowsBurst) :
    (c.followArrivals s arithmetic).FollowsBurst where
  policy := by rw [followArrivals_policy, h.policy]
  ge := by rw [followArrivals_burst]; exact h.ge
  le := by rw [followArrivals_burst]; exact h.le
  held := by rw [followArrivals_burst, followArrivals_current_burst, h.held]

theorem FollowsBurst.followFrames (h : c.FollowsBurst) :
    (c.followFrames s arithmetic).FollowsBurst := by
  unfold Controller.followFrames
  split
  · exact {
      policy := h.policy
      ge := le_max_left _ _
      le := max_le (by decide) (min_le_right _ _)
      held := toNat_toRate_clamp (by decide) (by decide) _ }
  · exact h

theorem update_burst (hpolicy : c.policy = .ratio) (hgathered : s.gathered = true) :
    (c.update s arithmetic).1.burst =
      ((c.followArrivals s arithmetic).followFrames s arithmetic).current.burst := by
  simp [update, hpolicy, hgathered]

theorem FollowsBurst.update (h : c.FollowsBurst) : (c.update s arithmetic).2.FollowsBurst := by
  cases hgathered : s.gathered with
  | false => rwa [update_of_not_gathered c s arithmetic hgathered]
  | true =>
    have hfollowed : ((c.followArrivals s arithmetic).followFrames s arithmetic).FollowsBurst :=
      h.followArrivals.followFrames
    simp only [Controller.update, hgathered, h.policy, not_true_eq_false, if_false]
    exact ⟨hfollowed.policy, hfollowed.ge, hfollowed.le, hfollowed.held⟩

theorem FollowsBurst.after (h : c.FollowsBurst) (periods : List Statistics) :
    (c.after periods arithmetic).FollowsBurst := by
  induction periods using List.reverseRecOn with
  | nil => exact h
  | append_singleton periods s ih =>
    rw [after_append, after_singleton]
    exact ih.update

theorem followsBurst_ofPolicy : (ofPolicy .ratio).FollowsBurst where
  policy := rfl
  ge := by decide
  le := by decide
  held := by decide

/-- Frames skipped beside frames rendered lower the burst rate, unless it is the least
that is asked for. -/
theorem FollowsBurst.followFrames_lt (h : c.FollowsBurst) (hrendered : 0 < s.rendered)
    (hskipped : 0 < s.skipped) (hmin : c.current.burst.toNat ≠ Settings.minBitrate) :
    (c.followFrames s .binary64).current.burst < c.current.burst := by
  obtain ⟨-, hlow, hhigh, hheld⟩ := h
  obtain ⟨expected, hexpected⟩ := Int.eq_ofNat_of_zero_le (le_trans (by decide) hlow)
  rw [hexpected] at hlow hhigh hheld
  have hpos : 0 < expected :=
    lt_of_lt_of_le (show 0 < Settings.minBitrate by decide) (by exact_mod_cast hlow)
  have hlarge : expected < Arithmetic.largeRate :=
    lt_of_le_of_lt (by exact_mod_cast hhigh)
      (show Settings.startBurst < Arithmetic.largeRate by decide)
  -- The share of the frames that were rendered is less than was expected ...
  obtain ⟨hnonneg, hless⟩ := Arithmetic.scaled_lt hpos hlarge (UInt32.lt_iff_toNat_lt.mp hrendered)
    s.rendered.toNat_lt (UInt32.lt_iff_toNat_lt.mp hskipped) s.skipped.toNat_lt
  obtain ⟨estimate, hestimate⟩ := Int.eq_ofNat_of_zero_le hnonneg
  rw [hestimate] at hless
  have hblend := (Arithmetic.blend_lt hlarge (Int.ofNat_lt.mp hless)).2
  -- ... so less is expected from now on, and a clamp does not bring it back.
  have hobserved : (c.burst.observe estimate .binary64).expected < expected := by
    rw [← hexpected]
    exact Expectation.observe_expected_lt (by rw [hexpected]; exact hless)
      (by rw [hexpected]; exact hblend)
  have hminLt : (Settings.minBitrate : Int) < expected :=
    lt_of_le_of_ne hlow fun heq => hmin (by exact_mod_cast hheld.trans heq.symm)
  have hclamp : clamp Settings.minBitrate Settings.startBurst
      (c.burst.observe estimate .binary64).expected < expected := clamp_lt hobserved hminLt
  have hburst : (c.followFrames s .binary64).current.burst =
      toRate (clamp Settings.minBitrate Settings.startBurst
        (c.burst.observe estimate .binary64).expected) := by
    unfold Controller.followFrames
    rw [if_pos hrendered, hexpected, hestimate]
  rw [hburst, UInt32.lt_iff_toNat_lt, ← Int.ofNat_lt, toNat_toRate_clamp (by decide) (by decide),
    hheld]
  exact hclamp

end

/-! ### Every run of periods -/

/-- **Skipped frames lower the burst rate exactly when frames were rendered beside them.**
By the ratio policy, after any periods, a measured period with skipped frames lowers the
burst rate or finds it at the least that is asked for, if a frame was rendered in it; with
none rendered the burst rate stays as it was. -/
theorem burst_lowered_iff_rendered (periods : List Statistics) (s : Statistics)
    (hgathered : s.gathered = true) (hskipped : 0 < s.skipped) :
    let c := (ofPolicy .ratio).after periods
    let least := c.current.burst.toNat = Settings.minBitrate
    ((c.update s).1.burst < c.current.burst ∨ least ↔ 0 < s.rendered ∨ least) ∧
      (s.rendered = 0 → (c.update s).1.burst = c.current.burst) := by
  intro c least
  have hfollows : (c.followArrivals s .binary64).FollowsBurst :=
    (followsBurst_ofPolicy.after periods).followArrivals
  have hpolicy : c.policy = .ratio := (followsBurst_ofPolicy.after periods).policy
  have hbefore : (c.followArrivals s .binary64).current.burst = c.current.burst :=
    followArrivals_current_burst c s .binary64
  have hunrendered (hnone : s.rendered = 0) : (c.update s).1.burst = c.current.burst := by
    rw [update_burst hpolicy hgathered, followFrames_of_not_rendered _ _ _ hnone, hbefore]
  refine ⟨⟨?_, ?_⟩, hunrendered⟩
  · rintro (hlower | hleast)
    · refine Or.inl (UInt32.pos_iff_ne_zero.mpr fun hnone => ?_)
      exact absurd hlower (by rw [hunrendered hnone]; exact UInt32.lt_irrefl _)
    · exact Or.inr hleast
  · rintro (hrendered | hleast)
    · by_cases hleast : least
      · exact Or.inr hleast
      · refine Or.inl ?_
        rw [update_burst hpolicy hgathered, ← hbefore]
        exact hfollows.followFrames_lt hrendered hskipped (by rw [hbefore]; exact hleast)
    · exact Or.inr hleast

/-- One frame in ten skipped, at the start. -/
theorem burst_lowered_of_one_in_ten :
    let s : Statistics :=
      { received := 500, skipped := 6, rendered := 54, throughput := 4000000, gathered := true }
    ((ofPolicy .ratio).update s).1.burst < (ofPolicy .ratio).current.burst := by
  intro s
  have h := (burst_lowered_iff_rendered [] s (by decide) (by decide)).1.mpr (Or.inl (by decide))
  exact h.resolve_right (by decide)

/-- With every frame of a second skipped and none rendered the burst rate stays at its
most. -/
theorem burst_kept_of_all_skipped :
    ¬ ∀ (periods : List Statistics) (s : Statistics), s.gathered = true → 0 < s.skipped →
      let c := (ofPolicy .ratio).after periods
      (c.update s).1.burst < c.current.burst ∨ c.current.burst.toNat = Settings.minBitrate := by
  intro hclaim
  let s : Statistics := { received := 500, skipped := 60, throughput := 4000000, gathered := true }
  have hupdate : ((ofPolicy .ratio).update s).1.burst = (ofPolicy .ratio).current.burst := by
    rw [update_burst rfl rfl, followFrames_of_not_rendered _ _ _ rfl, followArrivals_current_burst]
  rcases hclaim [] s (by decide) (by decide) with hlower | hleast
  · rw [after_nil, hupdate] at hlower
    exact absurd hlower (UInt32.lt_irrefl _)
  · exact absurd hleast (by decide)

end Controller

end Framecast
