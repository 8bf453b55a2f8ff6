/-
The arithmetic that rates are adapted in.

Rates are whole numbers of bits per second.  In between they are reckoned with in 64-bit
floating point and cut to whole bits again.  The adaptation asks for no more than the
steps below, so what holds of it whatever they yield can be said of any steps.
-/

namespace Framecast

/-- The steps by which rates are adapted, as they come out in some arithmetic. -/
structure Arithmetic where
  /-- A raised value: a twentieth more. -/
  raise : (expected : Int) → Int
  /-- Four fifths of the old value and one fifth of the new. -/
  blend : (expected estimate : Int) → Int
  /-- The value a ratio of good to all outcomes makes of an expectation. -/
  scaled : (expected : Int) → (good bad : Nat) → Int
  /-- The bitrate for a throughput: a quarter more. -/
  bitrateOf : (throughput : Int) → Int
  /-- The throughput that a bitrate is for. -/
  throughputOf : (bitrate : Int) → Int
  /-- The running average of a measured throughput. -/
  average : (before : Float) → (measured : UInt64) → Float
  /-- The bitrate for an average throughput. -/
  bitrateOfAverage : (average : Float) → Int

namespace Arithmetic

/-- Cuts a floating-point number to a whole one, at the ends of 64 bits; what is no
number becomes zero. -/
def truncate (x : Float) : Int :=
  x.toModel.toInt64.toInt

/-- The steps in 64-bit floating point. -/
def binary64 : Arithmetic where
  raise expected := truncate (Float.ofInt expected * 1.05)
  blend expected estimate :=
    truncate (0.8 * Float.ofInt expected + (1.0 - 0.8) * Float.ofInt estimate)
  scaled expected good bad :=
    truncate (Float.ofInt expected * Float.ofNat good / (Float.ofNat good + Float.ofNat bad))
  bitrateOf throughput := truncate (Float.ofInt throughput * 1.25)
  throughputOf bitrate := truncate (Float.ofInt bitrate / 1.25)
  average before measured := 0.8 * before + (1.0 - 0.8) * Float.ofNat measured.toNat
  bitrateOfAverage average := truncate (1.25 * average)

end Arithmetic

end Framecast
