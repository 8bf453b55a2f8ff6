/-
Expectations: probing for the rate a link bears.

An expectation that is met exactly for `threshold` observations in a row becomes the
last proven value and is raised by a twentieth.  If the raised value is then missed,
the expectation returns to the proven value and the next raise needs twice as many
observations as the last one did, up to a cap.  A miss with nothing proven below
pulls the expectation a fifth of the way towards the observation.

Rates are raised and blended in floating point; streaks and thresholds are plain
numbers.
-/
import Framecast.Rate.Arithmetic

namespace Framecast

/-- A quantity that is adapted by observing how well it is met. -/
structure Expectation where
  expected : Int
  /-- Observations met in a row. -/
  streak : Nat := 0
  /-- The streak needed for the next raise. -/
  threshold : Nat := 5
  /-- The value held before the last raise. -/
  proven : Option Int := none
  /-- The streak the last raise took, doubled by every miss of a raised value. -/
  provenThreshold : Nat := 5
  deriving DecidableEq, Repr, Inhabited

namespace Expectation

/-- The least streak that raises an expectation. -/
def minThreshold : Nat := 5

/-- The most a streak ever has to be. -/
def maxThreshold : Nat := 1024

/-- Folds one observation into an expectation. -/
def observe (e : Expectation) (estimate : Int) (arithmetic : Arithmetic := .binary64) :
    Expectation :=
  if estimate = e.expected then
    if e.streak + 1 ≥ e.threshold then
      { expected := arithmetic.raise e.expected
        streak := 0
        threshold := minThreshold
        proven := some estimate
        provenThreshold := e.threshold }
    else { e with streak := e.streak + 1 }
  else
    let blended := arithmetic.blend e.expected estimate
    match e.proven with
    | some good =>
      if e.expected > good then
        let threshold := min (e.provenThreshold * 2) maxThreshold
        { e with expected := good, streak := 0, threshold, provenThreshold := threshold }
      else { e with expected := blended, streak := 0, threshold := minThreshold }
    | none => { e with expected := blended, streak := 0, threshold := minThreshold }

end Expectation

end Framecast
