/-
The settings that are asked for stay in bounds.

Whatever was measured, and whatever the arithmetic in between comes to, a rate is clamped
on its way into the settings and everything else in them passes through.  So one period
keeps settings in bounds that were in bounds before it, and a run of periods is an
induction over them.
-/
import Mathlib.Data.List.Induction
import Mathlib.Order.Lattice
import Framecast.Rate.Controller

namespace Framecast

/-- Settings that may be asked for: rates in bounds, and the rest as it was set at the
beginning. -/
structure Settings.Bounded (s : Settings) : Prop where
  bitrate_ge : Settings.minBitrate ≤ s.bitrate.toNat
  bitrate_le : s.bitrate.toNat ≤ Settings.maxBitrate
  burst_ge : Settings.minBitrate ≤ s.burst.toNat
  burst_le : s.burst.toNat ≤ Settings.startBurst
  fps : s.fps = ({} : Settings).fps
  fec : s.fec = ({} : Settings).fec
  codec : s.codec = ({} : Settings).codec

namespace Settings

theorem bounded_default : ({} : Settings).Bounded := by
  constructor <;> decide

theorem Bounded.withRates {s : Settings} (h : s.Bounded) {bitrate burst : UInt32}
    (hbitrate : minBitrate ≤ bitrate.toNat ∧ bitrate.toNat ≤ maxBitrate)
    (hburst : minBitrate ≤ burst.toNat ∧ burst.toNat ≤ startBurst) :
    { s with bitrate, burst : Settings }.Bounded :=
  { h with
    bitrate_ge := hbitrate.1
    bitrate_le := hbitrate.2
    burst_ge := hburst.1
    burst_le := hburst.2 }

end Settings

namespace Controller

/-- The controller after a sequence of periods. -/
def after (c : Controller) (periods : List Statistics) (arithmetic : Arithmetic := .binary64) :
    Controller :=
  periods.foldl (fun c s => (c.update s arithmetic).2) c

section

variable (c : Controller) (s : Statistics) (arithmetic : Arithmetic)

@[simp] theorem after_nil : c.after [] arithmetic = c := rfl

@[simp] theorem after_append (periods later : List Statistics) :
    c.after (periods ++ later) arithmetic = (c.after periods arithmetic).after later arithmetic :=
  List.foldl_append

@[simp] theorem after_singleton : c.after [s] arithmetic = (c.update s arithmetic).2 := rfl

/-- Without measurements the answer is the defaults and nothing is learnt. -/
theorem update_of_not_gathered (h : s.gathered = false) :
    c.update s arithmetic = (c.defaults, c) := by
  simp [update, h]

end

/-! ### One period -/

/-- A clamped rate stands in settings as it is. -/
theorem toNat_toRate_clamp {lo hi : Nat} (hhi : hi < UInt32.size) (hle : lo ≤ hi) (rate : Int) :
    ((toRate (clamp lo hi rate)).toNat : Int) = clamp lo hi rate := by
  have hlo : (lo : Int) ≤ clamp lo hi rate := le_max_left _ _
  have hclamp : clamp lo hi rate ≤ hi := max_le (by exact_mod_cast hle) (min_le_right _ _)
  have htoNat : (clamp lo hi rate).toNat < UInt32.size := by omega
  rw [toRate, UInt32.toNat_ofNat', Nat.mod_eq_of_lt htoNat]
  omega

theorem toRate_clamp_mem {lo hi : Nat} (hhi : hi < UInt32.size) (hle : lo ≤ hi) (rate : Int) :
    lo ≤ (toRate (clamp lo hi rate)).toNat ∧ (toRate (clamp lo hi rate)).toNat ≤ hi := by
  have hlo : (lo : Int) ≤ clamp lo hi rate := le_max_left _ _
  have hclamp : clamp lo hi rate ≤ hi := max_le (by exact_mod_cast hle) (min_le_right _ _)
  have hrate := toNat_toRate_clamp hhi hle rate
  omega

/-- A controller with the usual defaults, that last asked for settings in bounds. -/
structure Usual (c : Controller) : Prop where
  defaults : c.defaults = {}
  current : c.current.Bounded

section

variable {c : Controller} {s : Statistics} {arithmetic : Arithmetic}

theorem Usual.bitrate (h : c.Usual) :
    Settings.minBitrate ≤ c.current.bitrate.toNat ∧
      c.current.bitrate.toNat ≤ Settings.maxBitrate :=
  ⟨h.current.bitrate_ge, h.current.bitrate_le⟩

theorem Usual.burst (h : c.Usual) :
    Settings.minBitrate ≤ c.current.burst.toNat ∧ c.current.burst.toNat ≤ Settings.startBurst :=
  ⟨h.current.burst_ge, h.current.burst_le⟩

theorem Usual.followArrivals (h : c.Usual) : (c.followArrivals s arithmetic).Usual := by
  unfold Controller.followArrivals
  split
  · exact ⟨h.defaults,
      h.current.withRates (toRate_clamp_mem (by decide) (by decide) _) h.burst⟩
  · exact h

theorem Usual.followFrames (h : c.Usual) : (c.followFrames s arithmetic).Usual := by
  unfold Controller.followFrames
  split
  · exact ⟨h.defaults,
      h.current.withRates h.bitrate (toRate_clamp_mem (by decide) (by decide) _)⟩
  · exact h

theorem Usual.followThroughput (h : c.Usual) : (c.followThroughput s arithmetic).Usual :=
  ⟨h.defaults, h.current.withRates (toRate_clamp_mem (by decide) (by decide) _)
    (by rw [h.defaults]; decide)⟩

theorem Usual.chooseLevel (h : c.Usual) : (c.chooseLevel s).Usual := by
  unfold Controller.chooseLevel
  split
  · exact ⟨h.defaults, h.current.withRates (by decide) (by decide)⟩
  · exact ⟨h.defaults,
      h.current.withRates (by rw [h.defaults]; decide) (by rw [h.defaults]; decide)⟩

/-- Everything but the rates is passed through from the defaults. -/
theorem Usual.passThrough (h : c.Usual) :
    { c.current with
      fps := c.defaults.fps
      fec := c.defaults.fec
      codec := c.defaults.codec : Settings }.Bounded := by
  rw [h.defaults]
  exact { h.current with fps := rfl, fec := rfl, codec := rfl }

/-- One period, by cases on the policy: what it returns is what the controller then holds. -/
theorem Usual.update (h : c.Usual) :
    (c.update s arithmetic).1.Bounded ∧ (c.update s arithmetic).2.Usual := by
  cases hgathered : s.gathered with
  | false =>
    rw [update_of_not_gathered c s arithmetic hgathered, h.defaults]
    exact ⟨Settings.bounded_default, h⟩
  | true =>
    unfold Controller.update
    rw [if_neg (by simp [hgathered])]
    cases c.policy with
    | ratio =>
      have hfollowed : ((c.followArrivals s arithmetic).followFrames s arithmetic).Usual :=
        h.followArrivals.followFrames
      exact ⟨hfollowed.passThrough, hfollowed.defaults, hfollowed.passThrough⟩
    | average =>
      have hfollowed : (c.followThroughput s arithmetic).Usual := h.followThroughput
      exact ⟨hfollowed.passThrough, hfollowed.defaults, hfollowed.passThrough⟩
    | twoLevel =>
      have hfollowed : (c.chooseLevel s).Usual := h.chooseLevel
      exact ⟨hfollowed.passThrough, hfollowed.defaults, hfollowed.passThrough⟩

/-- A run of periods, by induction over them from the end. -/
theorem Usual.after (h : c.Usual) (periods : List Statistics) :
    (c.after periods arithmetic).Usual := by
  induction periods using List.reverseRecOn with
  | nil => exact h
  | append_singleton periods s ih =>
    rw [after_append, after_singleton]
    exact ih.update.2

end

/-! ### Every run of periods -/

/-- **Settings stay in bounds.**  Whatever a new controller's starting rate came to in its
reckoning, and whatever the steps of its arithmetic yield, after any periods the settings
returned for one more period and those then held are in bounds; and a period that was not
measured is answered with the defaults and changes nothing. -/
theorem update_bounded_of_periods (policy : Policy) (throughput : Expectation) (average : Float)
    (arithmetic : Arithmetic) (periods : List Statistics) (s : Statistics) :
    let c := ({ ofPolicy policy with throughput, average } : Controller).after periods arithmetic
    let answer := c.update s arithmetic
    answer.1.Bounded ∧ answer.2.current.Bounded ∧ (s.gathered = false → answer = ({}, c)) := by
  intro c answer
  have hstart : ({ ofPolicy policy with throughput, average } : Controller).Usual :=
    ⟨rfl, Settings.bounded_default⟩
  have hafter : c.Usual := hstart.after periods
  refine ⟨hafter.update.1, hafter.update.2.current, fun hgathered => ?_⟩
  rw [← hafter.defaults]
  exact update_of_not_gathered c s arithmetic hgathered

end Controller

end Framecast
