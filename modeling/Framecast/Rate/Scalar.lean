/-
The arithmetic that rates are kept in.

A program keeps rates in 64-bit floating point.  The laws of a token bucket are those
of exact arithmetic, so its operations ask for no more than the class below and can
be read over either.
-/
import Framecast.Time

namespace Framecast

/-- Numbers with the four operations and an order that can be tested. -/
class Scalar (R : Type) extends Add R, Sub R, Mul R, Div R, LE R where
  ofNat : Nat → R
  decideLe : ∀ a b : R, Decidable (a ≤ b)

namespace Scalar

variable {R : Type} [Scalar R]

instance (a b : R) : Decidable (a ≤ b) := decideLe a b

/-- The lesser of two numbers. -/
def lesser (a b : R) : R := if a ≤ b then a else b

/-- The greater of two numbers. -/
def greater (a b : R) : R := if a ≤ b then b else a

/-- A span of nanoseconds in seconds: whole seconds, and the rest as a fraction. -/
def seconds (ns : Nat) : R :=
  ofNat (ns / Time.second) + ofNat (ns % Time.second) / ofNat Time.second

end Scalar

instance : Scalar Float where
  ofNat := Float.ofNat
  decideLe := Float.decLe

end Framecast
