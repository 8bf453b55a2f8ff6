/-
How an expectation probes upwards, and how it backs off.

`observe_cases` says all that an observation can do: it is met and the streak grows, it is met
and completes the streak, it misses a raised value, or it misses with nothing proven below.
Only the second proves a value, and only the first and the second are met.

So a streak is a run of observations that were all met, and an expectation is raised by the
last of as many as its threshold asks for.  Until the next raise the value that was proven and
the streak that it took are kept, whatever is blended in between; the first miss above the
proven value finds them there, goes back to the one and asks for twice the other.
-/
import Mathlib.Data.List.Induction
import Framecast.Rate.Expectation

namespace Framecast.Expectation

variable {e : Expectation} {x : Int} {a : Arithmetic}

/-- The expectation with its value raised, and the value before it proven. -/
def raised (e : Expectation) (a : Arithmetic) : Expectation :=
  { expected := a.raise e.expected
    streak := 0
    threshold := minThreshold
    proven := some e.expected
    provenThreshold := e.threshold }

/-- The expectation back at a proven value, to be raised after twice the streak. -/
def fallen (e : Expectation) (good : Int) : Expectation :=
  { e with
    expected := good
    streak := 0
    threshold := min (e.provenThreshold * 2) maxThreshold
    provenThreshold := min (e.provenThreshold * 2) maxThreshold }

/-- The observation is met, and raises the expectation. -/
def RaisedBy (a : Arithmetic) (e : Expectation) (x : Int) : Prop :=
  x = e.expected ∧ e.observe x a = e.raised a

/-- The observation misses a value that is above the proven one. -/
def MissedBy (e : Expectation) (x : Int) : Prop :=
  x ≠ e.expected ∧ ∃ good, e.proven = some good ∧ good < e.expected

/-! ### One observation -/

/-- What an observation can do. -/
inductive Observes (a : Arithmetic) (e : Expectation) (x : Int) : Expectation → Prop
  | met (hmet : x = e.expected) (hshort : e.streak + 1 < e.threshold) :
      Observes a e x { e with streak := e.streak + 1 }
  | raises (hmet : x = e.expected) (hfull : e.threshold ≤ e.streak + 1) :
      Observes a e x (e.raised a)
  | falls {good : Int} (hmiss : x ≠ e.expected) (hproven : e.proven = some good)
      (habove : good < e.expected) : Observes a e x (e.fallen good)
  | blends (hmiss : x ≠ e.expected) (hlow : ∀ good, e.proven = some good → e.expected ≤ good) :
      Observes a e x
        { e with expected := a.blend e.expected x, streak := 0, threshold := minThreshold }

/-- **All that an observation can do.** -/
theorem observe_cases (a : Arithmetic) (e : Expectation) (x : Int) :
    Observes a e x (e.observe x a) := by
  unfold observe
  split
  · rename_i hmet
    split
    · rename_i hfull
      rw [hmet]
      exact .raises rfl hfull
    · rename_i hshort
      exact .met hmet (by omega)
  · rename_i hmiss
    dsimp only
    split
    · rename_i good hproven
      split
      · rename_i habove
        exact .falls hmiss hproven habove
      · rename_i hlow
        refine .blends hmiss fun good' h => ?_
        rw [hproven, Option.some.injEq] at h
        omega
    · rename_i hproven
      exact .blends hmiss fun good h => by rw [hproven] at h; cases h

/-- An expectation is raised by an observation that is met and completes the streak. -/
theorem raisedBy_iff : RaisedBy a e x ↔ x = e.expected ∧ e.threshold ≤ e.streak + 1 := by
  have hcases := observe_cases a e x
  unfold RaisedBy
  generalize e.observe x a = next at hcases
  cases hcases with
  | met hmet hshort =>
    -- A streak that goes on is not empty.
    have hne : { e with streak := e.streak + 1 } ≠ e.raised a := fun h =>
      Nat.succ_ne_zero _ (congrArg streak h)
    exact ⟨fun h => absurd h.2 hne, fun h => absurd h.2 (by omega)⟩
  | raises hmet hfull => exact ⟨fun _ => ⟨hmet, hfull⟩, fun _ => ⟨hmet, rfl⟩⟩
  | falls hmiss => exact ⟨fun h => absurd h.1 hmiss, fun h => absurd h.1 hmiss⟩
  | blends hmiss => exact ⟨fun h => absurd h.1 hmiss, fun h => absurd h.1 hmiss⟩

/-- A value that is missed from above falls back. -/
theorem observe_of_missedBy (h : MissedBy e x) :
    ∃ good, e.proven = some good ∧ e.observe x a = e.fallen good := by
  obtain ⟨hmiss, good, hproven, habove⟩ := h
  have hcases := observe_cases a e x
  generalize e.observe x a = next at hcases
  cases hcases with
  | met hmet => exact absurd hmet hmiss
  | raises hmet => exact absurd hmet hmiss
  | falls _ hproven' _ => exact ⟨_, hproven', rfl⟩
  | blends _ hlow => exact absurd (hlow good hproven) (by omega)

/-- An observation that is met and does not raise makes the streak longer. -/
theorem observe_of_met (hmet : x = e.expected) (h : ¬ RaisedBy a e x) :
    e.streak + 1 < e.threshold ∧ e.observe x a = { e with streak := e.streak + 1 } := by
  have hcases := observe_cases a e x
  rw [raisedBy_iff] at h
  generalize e.observe x a = next at hcases
  cases hcases with
  | met _ hshort => exact ⟨hshort, rfl⟩
  | raises _ hfull => exact absurd ⟨hmet, hfull⟩ h
  | falls hmiss => exact absurd hmet hmiss
  | blends hmiss => exact absurd hmet hmiss

/-- Only a raise proves a value. -/
theorem proven_observe (h : ¬ RaisedBy a e x) : (e.observe x a).proven = e.proven := by
  have hcases := observe_cases a e x
  generalize e.observe x a = next at hcases ⊢
  cases hcases with
  | met => rfl
  | raises hmet hfull => exact absurd (raisedBy_iff.mpr ⟨hmet, hfull⟩) h
  | falls => rfl
  | blends => rfl

/-- Only a raise or a miss from above changes the streak that was needed. -/
theorem provenThreshold_observe (hraise : ¬ RaisedBy a e x) (hmiss : ¬ MissedBy e x) :
    (e.observe x a).provenThreshold = e.provenThreshold := by
  have hcases := observe_cases a e x
  generalize e.observe x a = next at hcases ⊢
  cases hcases with
  | met => rfl
  | raises hmet hfull => exact absurd (raisedBy_iff.mpr ⟨hmet, hfull⟩) hraise
  | falls hne hproven habove => exact absurd ⟨hne, _, hproven, habove⟩ hmiss
  | blends => rfl

/-! ### Bounds -/

/-- Streaks and thresholds are in bounds. -/
structure InBounds (e : Expectation) : Prop where
  threshold_ge : 5 ≤ e.threshold
  threshold_le : e.threshold ≤ 1024
  provenThreshold_ge : 5 ≤ e.provenThreshold
  provenThreshold_le : e.provenThreshold ≤ 1024
  streak_lt : e.streak < e.threshold

theorem inBounds_start (start : Int) : InBounds { expected := start } := by
  constructor <;> dsimp only <;> decide

theorem InBounds.observe (h : e.InBounds) : (e.observe x a).InBounds := by
  obtain ⟨hge, hle, hprovenGe, hprovenLe, hstreak⟩ := h
  have hmin : minThreshold = 5 := rfl
  have hmax : maxThreshold = 1024 := rfl
  have hcases := observe_cases a e x
  generalize e.observe x a = next at hcases ⊢
  cases hcases with
  | met hmet hshort => exact ⟨hge, hle, hprovenGe, hprovenLe, hshort⟩
  | raises => constructor <;> dsimp only [raised] <;> omega
  | falls => constructor <;> dsimp only [fallen] <;> omega
  | blends => constructor <;> dsimp only <;> omega

/-! ### Many observations -/

/-- The expectation after a number of observations. -/
def after (e : Expectation) (xs : List Int) (a : Arithmetic) : Expectation :=
  xs.foldl (fun e x => e.observe x a) e

@[simp] theorem after_nil : e.after [] a = e := rfl

@[simp] theorem after_cons (xs : List Int) : e.after (x :: xs) a = (e.observe x a).after xs a := rfl

theorem after_append (xs ys : List Int) : e.after (xs ++ ys) a = (e.after xs a).after ys a :=
  List.foldl_append

theorem after_concat (xs : List Int) : e.after (xs ++ [x]) a = (e.after xs a).observe x a :=
  after_append xs [x]

theorem InBounds.after (h : e.InBounds) (xs : List Int) : (e.after xs a).InBounds := by
  induction xs generalizing e with
  | nil => exact h
  | cons x xs ih => exact ih h.observe

/-- None of the observations is of a kind at the time it is made. -/
def Never (kind : Expectation → Int → Prop) (a : Arithmetic) : Expectation → List Int → Prop
  | _, [] => True
  | e, x :: xs => ¬ kind e x ∧ Never kind a (e.observe x a) xs

/-- Until the next raise the proven value is kept, and until it is missed from above so is the
streak that it took. -/
theorem kept_after {xs : List Int} (hraise : Never (RaisedBy a) a e xs)
    (hmiss : Never MissedBy a e xs) :
    (e.after xs a).proven = e.proven ∧ (e.after xs a).provenThreshold = e.provenThreshold := by
  induction xs generalizing e with
  | nil => exact ⟨rfl, rfl⟩
  | cons x xs ih =>
    obtain ⟨hproven, hthreshold⟩ := ih hraise.2 hmiss.2
    exact ⟨hproven.trans (proven_observe hraise.1),
      hthreshold.trans (provenThreshold_observe hraise.1 hmiss.1)⟩

/-- Observations that are all met make the streak longer until it is complete. -/
theorem after_of_met {xs : List Int} (hmet : ∀ x ∈ xs, x = e.expected)
    (hraise : Never (RaisedBy a) a e xs) (hstreak : e.streak < e.threshold) :
    e.streak + xs.length < e.threshold ∧
      e.after xs a = { e with streak := e.streak + xs.length } := by
  induction xs generalizing e with
  | nil => exact ⟨hstreak, rfl⟩
  | cons x xs ih =>
    obtain ⟨hshort, hnext⟩ := observe_of_met (hmet x (List.mem_cons_self ..)) hraise.1
    obtain ⟨-, hlater⟩ := hraise
    rw [hnext] at hlater
    obtain ⟨hlength, hafter⟩ := ih (e := { e with streak := e.streak + 1 })
      (fun y hy => hmet y (List.mem_cons_of_mem _ hy)) hlater hshort
    have hsum : e.streak + 1 + xs.length = e.streak + (x :: xs).length := by
      rw [List.length_cons]
      omega
    dsimp only at hlength hafter
    rw [hsum] at hlength hafter
    rw [after_cons, hnext, hafter]
    exact ⟨hlength, rfl⟩

/-- `past` ends in the streak of the expectation: in so many observations that were met while
nothing else changed. -/
def EndsInStreak (start : Expectation) (a : Arithmetic) (past : List Int) (e : Expectation) :
    Prop :=
  ∃ before, past = before ++ List.replicate e.streak e.expected ∧
    ∀ k ≤ e.streak,
      start.after (before ++ List.replicate k e.expected) a = { e with streak := k }

/-- A streak that has just begun. -/
theorem endsInStreak_of_streak_eq_zero {start : Expectation} {past : List Int}
    (hafter : start.after past a = e) (hzero : e.streak = 0) : EndsInStreak start a past e := by
  refine ⟨past, by rw [hzero]; exact (List.append_nil _).symm, fun k hk => ?_⟩
  obtain rfl : k = 0 := by omega
  rw [List.replicate_zero, List.append_nil, hafter, ← hzero]

/-- **A streak is a run of observations that were met.**  By induction over the observations. -/
theorem endsInStreak {start : Expectation} (hstart : start.streak = 0) (past : List Int) :
    EndsInStreak start a past (start.after past a) := by
  induction past using List.reverseRecOn with
  | nil => exact endsInStreak_of_streak_eq_zero rfl hstart
  | append_singleton past x ih =>
    have hcases := observe_cases a (start.after past a) x
    have hafter : start.after (past ++ [x]) a = (start.after past a).observe x a :=
      after_concat past
    rw [hafter]
    generalize start.after past a = e at hcases hafter ih
    generalize e.observe x a = next at hcases hafter
    cases hcases with
    | raises => exact endsInStreak_of_streak_eq_zero hafter rfl
    | falls => exact endsInStreak_of_streak_eq_zero hafter rfl
    | blends => exact endsInStreak_of_streak_eq_zero hafter rfl
    | met hmet hshort =>
      obtain ⟨before, hpast, hrun⟩ := ih
      have hlonger : past ++ [x] = before ++ List.replicate (e.streak + 1) e.expected := by
        rw [List.replicate_succ', ← List.append_assoc, ← hpast, hmet]
      refine ⟨before, hlonger, fun k hk => ?_⟩
      rcases Nat.lt_or_ge e.streak k with hlast | hearlier
      · obtain rfl : k = e.streak + 1 := Nat.le_antisymm hk hlast
        dsimp only
        rw [← hlonger, hafter]
      · exact hrun k hearlier

/-! ### Raises -/

/-- The observation `x` after `past` is the last of as many in a row as the threshold asks for,
all equal to the expectation, while nothing changed but the streak. -/
def Completes (start : Expectation) (a : Arithmetic) (past : List Int) (x : Int) : Prop :=
  let e := start.after past a
  ∃ before, past ++ [x] = before ++ List.replicate e.threshold e.expected ∧
    ∀ k < e.threshold,
      start.after (before ++ List.replicate k e.expected) a = { e with streak := k }

/-- **A raise takes a complete streak.** -/
theorem raisedBy_iff_completes {start : Expectation} (hbounds : start.InBounds)
    (hstart : start.streak = 0) (past : List Int) (x : Int) :
    RaisedBy a (start.after past a) x ↔ Completes start a past x := by
  have hends := endsInStreak (a := a) hstart past
  have hin := hbounds.after (a := a) past
  unfold Completes
  rw [raisedBy_iff]
  generalize hafter : start.after past a = e at hends hin
  dsimp only
  constructor
  · rintro ⟨hmet, hfull⟩
    obtain ⟨before, hpast, hrun⟩ := hends
    have hstreak : e.streak + 1 = e.threshold := Nat.le_antisymm hin.streak_lt hfull
    refine ⟨before, ?_, fun k hk => hrun k (by omega)⟩
    rw [← hstreak, List.replicate_succ', ← List.append_assoc, ← hpast, hmet]
  · rintro ⟨before, hpast, hrun⟩
    have hpos := hin.threshold_ge
    obtain ⟨short, hshort⟩ : ∃ short, e.threshold = short + 1 := ⟨e.threshold - 1, by omega⟩
    rw [hshort, List.replicate_succ', ← List.append_assoc] at hpast
    obtain ⟨hsame, hmet⟩ := List.append_inj' hpast rfl
    have hlast := hrun short (by omega)
    rw [← hsame, hafter] at hlast
    have hstreak : e.streak = short := congrArg streak hlast
    rw [List.singleton_inj] at hmet
    exact ⟨hmet, by omega⟩

/-! ### Backing off -/

/-- **The first miss after a raise.**  It goes back to the value before the raise and asks for
twice the streak. -/
theorem observe_after_raise {between : List Int} {y : Int}
    (hraise : Never (RaisedBy a) a (e.raised a) between)
    (hmiss : Never MissedBy a (e.raised a) between)
    (hy : MissedBy ((e.raised a).after between a) y) :
    (e.raised a).after (between ++ [y]) a =
      { expected := e.expected
        streak := 0
        threshold := min (2 * e.threshold) 1024
        proven := some e.expected
        provenThreshold := min (2 * e.threshold) 1024 } := by
  obtain ⟨hproven, hthreshold⟩ := kept_after hraise hmiss
  obtain ⟨good, hgood, hfallen⟩ := observe_of_missedBy (a := a) hy
  have hgood : some e.expected = some good := hproven.symm.trans hgood
  rw [Option.some.injEq] at hgood
  rw [after_concat, hfallen, fallen, hproven, hthreshold, ← hgood, Nat.mul_comm 2]
  rfl

/-- **The next raise takes as many observations as the threshold says,** all equal to the
expectation, unless it is missed before. -/
theorem eq_replicate_of_next_raise {later : List Int} {z : Int} (hzero : e.streak = 0)
    (hpos : 0 < e.threshold) (hnone : Never (RaisedBy a) a e later)
    (hz : RaisedBy a (e.after later a) z) :
    later ++ [z] = List.replicate e.threshold e.expected ∨ ∃ w ∈ later, w ≠ e.expected := by
  by_cases hmet : ∀ w ∈ later, w = e.expected
  · obtain ⟨hlength, hafter⟩ := after_of_met hmet hnone (by omega)
    rw [hafter, raisedBy_iff] at hz
    obtain ⟨hlast, hfull⟩ := hz
    dsimp only at hlast hfull
    have hcount : later.length + 1 = e.threshold := by omega
    refine Or.inl (List.eq_replicate_iff.mpr ⟨?_, fun w hw => ?_⟩)
    · rw [List.length_append, List.length_singleton, hcount]
    · rcases List.mem_append.mp hw with hearlier | hlater
      · exact hmet w hearlier
      · rw [List.mem_singleton.mp hlater, hlast]
  · right
    simpa using hmet

/--
**How an expectation probes and backs off.**  After any observations, and whatever the
arithmetic yields:

* threshold and proven threshold lie between 5 and 1024 and the streak is below the threshold,
  so none of them ever comes near the end of 32 bits;
* the next observation raises the expectation exactly if it is the last of `threshold`
  observations in a row that equal it, and only then is a value proven, the one before the raise;
* if the raise took a threshold `t`, then the first miss of a value above the proven one, before
  the next raise, takes the expectation back to just the value before the raise, and the next
  raise after that comes at the last of `min (2 t) 1024` further observations, all equal to that
  value, unless it is missed first.
-/
theorem probing_backs_off (a : Arithmetic) (start : Int) (past : List Int) :
    let fresh : Expectation := { expected := start }
    let e := fresh.after past a
    e.InBounds ∧ e.streak + 1 < UInt32.size ∧ e.provenThreshold * 2 < UInt32.size ∧
      (∀ x, (RaisedBy a e x ↔ Completes fresh a past x) ∧
        (RaisedBy a e x → (e.observe x a).expected = a.raise e.expected ∧
          (e.observe x a).proven = some e.expected) ∧
        (¬ RaisedBy a e x → (e.observe x a).proven = e.proven)) ∧
      ∀ x between y, RaisedBy a e x →
        Never (RaisedBy a) a (e.observe x a) between → Never MissedBy a (e.observe x a) between →
        MissedBy (fresh.after (past ++ x :: between) a) y →
        let back := fresh.after (past ++ x :: between ++ [y]) a
        back.expected = e.expected ∧ back.proven = some e.expected ∧
          ∀ later z, Never (RaisedBy a) a back later → RaisedBy a (back.after later a) z →
            later ++ [z] = List.replicate (min (2 * e.threshold) 1024) e.expected ∨
              ∃ w ∈ later, w ≠ e.expected := by
  intro fresh e
  have hbounds : e.InBounds := (inBounds_start start).after past
  obtain ⟨hge, hle, -, hprovenLe, hstreak⟩ := id hbounds
  have hsize : UInt32.size = 4294967296 := rfl
  refine ⟨hbounds, by omega, by omega, fun x => ⟨?_, fun hx => ?_, proven_observe⟩, ?_⟩
  · exact raisedBy_iff_completes (inBounds_start start) rfl past x
  · rw [hx.2]
    exact ⟨rfl, rfl⟩
  · intro x between y hx hraise hmiss hy back
    have hraised : fresh.after (past ++ x :: between) a = (e.raised a).after between a := by
      rw [after_append, after_cons]
      exact congrArg (·.after between a) hx.2
    rw [hx.2] at hraise hmiss
    rw [hraised] at hy
    have hback := observe_after_raise hraise hmiss hy
    rw [after_concat, ← hraised, ← after_concat] at hback
    have hback : back = _ := hback
    rw [hback]
    refine ⟨rfl, rfl, fun later z hnone hz => ?_⟩
    exact eq_replicate_of_next_raise rfl (Nat.lt_min.mpr ⟨by omega, by decide⟩) hnone hz

/-- A thousand is met five times and raised, and the raised value is missed: the next raise
takes ten further observations of a thousand, unless it is missed before. -/
theorem ten_after_missed_raise :
    let fresh : Expectation := { expected := 1000 }
    let back := fresh.after [1000, 1000, 1000, 1000, 1000, 900] .binary64
    back.expected = 1000 ∧ ∀ later z, Never (RaisedBy .binary64) .binary64 back later →
      RaisedBy .binary64 (back.after later .binary64) z →
        later ++ [z] = List.replicate 10 1000 ∨ ∃ w ∈ later, w ≠ 1000 := by
  intro fresh back
  have hraise : RaisedBy .binary64 (fresh.after [1000, 1000, 1000, 1000] .binary64) 1000 :=
    raisedBy_iff.mpr (by decide)
  have hmiss : MissedBy (fresh.after [1000, 1000, 1000, 1000, 1000] .binary64) 900 :=
    ⟨by decide +kernel, 1000, by decide, by decide +kernel⟩
  have h := (probing_backs_off .binary64 1000 [1000, 1000, 1000, 1000]).2.2.2.2
    1000 [] 900 hraise trivial trivial hmiss
  exact ⟨h.1, h.2.2⟩

end Framecast.Expectation
