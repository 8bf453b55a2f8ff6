/-
The meter of a receiver: counting over one period.

A period is closed by the first look at the meter that comes a full period after it
began; the counts are then brought to one second and counting starts afresh.  Times
are nanoseconds on one clock; a look from before the period began counts as no time
passed.
-/
import Framecast.Rate.Scalar
import Framecast.Rate.Settings

namespace Framecast

/-- Counts since the period began. -/
structure Meter where
  /-- The length of a period, in nanoseconds. -/
  period : Nat
  started : Int := 0
  packets : Nat := 0
  bytes : Nat := 0
  requests : Nat := 0
  rendered : Nat := 0
  skipped : Nat := 0
  deriving DecidableEq, Repr, Inhabited

namespace Meter

/-- Counts a media packet with `size` payload bytes. -/
def countPacket (m : Meter) (size : Nat) : Meter :=
  { m with packets := m.packets + 1, bytes := m.bytes + size }

/-- Counts requests for missing fragments. -/
def countRequests (m : Meter) (n : Nat) : Meter :=
  { m with requests := m.requests + n }

/-- Counts a frame handed on. -/
def countRendered (m : Meter) : Meter :=
  { m with rendered := m.rendered + 1 }

/-- Counts frames that were lost or had no room. -/
def countSkipped (m : Meter) (n : Nat) : Meter :=
  { m with skipped := m.skipped + n }

/-- A count as the meter reads it: its counters have 64 bits and start over beyond
them. -/
def reading (n : Nat) : Float := (UInt64.ofNat n).toFloat

/-- A count over `secs` seconds as a count per second, to the nearest. -/
def perSecond (secs : Float) (n : Nat) : UInt32 :=
  (reading n / secs).round.toUInt32

/-- Closes the period if it is over, and returns what was counted per second. -/
def close? (m : Meter) (now : Int) : Option (Statistics × Meter) :=
  let span := Time.elapsed m.started now
  if span < m.period ∨ span = 0 then none else
  let secs : Float := Scalar.seconds span
  let measured : Statistics :=
    { requests := perSecond secs m.requests
      received := perSecond secs m.packets
      skipped := perSecond secs m.skipped
      rendered := perSecond secs m.rendered
      throughput := (reading m.bytes * 8.0 / secs).toUInt64
      gathered := true }
  some (measured, { period := m.period, started := now })

end Meter

end Framecast
