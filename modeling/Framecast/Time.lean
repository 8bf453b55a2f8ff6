/-
Time on the clock of a program.

Points in time are whole nanoseconds, counted from the start of the program and of
type `Int`; spans are natural numbers of nanoseconds.  Spans become seconds for rates, and
a span computed in seconds becomes the nearest number of nanoseconds, ties to even:
the exact binary value is scaled and divided in whole numbers, so no rounding comes
before the last one.
-/

namespace Framecast

namespace Time

/-- The nanoseconds in a second. -/
def second : Nat := 1000000000

/-- The nanoseconds in a millisecond. -/
def millisecond : Nat := 1000000

/-- The nanoseconds from `start` to `now`, none if `now` comes first. -/
def elapsed (start now : Int) : Nat :=
  (now - start).toNat

/-- A quotient to the nearest whole number, ties to even. -/
def nearest (num den : Nat) : Nat :=
  let q := num / den
  let r := num % den
  if 2 * r < den then q
  else if 2 * r > den then q + 1
  else q + q % 2

/-- The whole nanoseconds nearest to a finite number of seconds that is not
negative. -/
def ofSeconds (s : Float) : Nat :=
  let bits := s.toBits.toNat
  let exponent := bits / Nat.pow 2 52 % Nat.pow 2 11
  let fraction := bits % Nat.pow 2 52
  let (mantissa, scale) :=
    if exponent = 0 then (fraction, 1) else (fraction + Nat.pow 2 52, exponent)
  -- the value is `mantissa * 2 ^ (scale - 1075)`
  if scale ≥ 1075 then mantissa * Nat.pow 2 (scale - 1075) * second
  else nearest (mantissa * second) (Nat.pow 2 (1075 - scale))

end Time

end Framecast
