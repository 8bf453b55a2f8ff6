/-
A token bucket: bytes allowed now, and how fast more become allowed.

The bucket fills at `rate` bytes per second up to `capacity`, which holds ten
milliseconds at that rate but always one whole datagram.  A change of rate first
accounts for the time before it.
-/
import Framecast.Cipher.Sealed
import Framecast.Rate.Scalar

namespace Framecast

/-- A token bucket over the numbers `R`. -/
structure Bucket (R : Type) where
  /-- Bytes per second. -/
  rate : R
  capacity : R
  /-- Bytes allowed now. -/
  tokens : R
  /-- When the tokens were last brought up to date. -/
  filled : Int
  deriving Repr

namespace Bucket

variable {R : Type} [Scalar R]

/-- The depth of a bucket in nanoseconds at its rate. -/
def depth : Nat := 10 * Time.millisecond

/-- Adds what became allowed since the last time. -/
def fill (b : Bucket R) (now : Int) : Bucket R :=
  { b with
    tokens :=
      Scalar.lesser (b.tokens + Scalar.seconds (Time.elapsed b.filled now) * b.rate) b.capacity
    filled := now }

/-- The bytes per second of a rate in bits per second, which is never none. -/
def byteRate (bitrate : Nat) : R :=
  Scalar.ofNat (max bitrate 1) / Scalar.ofNat 8

/-- The capacity at a rate. -/
def capacityAt (rate : R) : R :=
  Scalar.greater (rate * Scalar.seconds depth) (Scalar.ofNat Sealed.maxSize)

/-- Changes the rate; tokens beyond the new capacity are lost. -/
def setRate (b : Bucket R) (bitrate : Nat) (now : Int) : Bucket R :=
  let b := b.fill now
  let rate : R := byteRate bitrate
  let capacity := capacityAt rate
  { b with rate, capacity, tokens := Scalar.lesser b.tokens capacity }

/-- A full bucket. -/
def full (bitrate : Nat) (now : Int) : Bucket R :=
  let rate : R := byteRate bitrate
  let capacity := capacityAt rate
  { rate, capacity, tokens := capacity, filled := now }

/-- What a request for `bytes` is counted as: no request is larger than the bucket. -/
def charge (b : Bucket R) (bytes : Nat) : R :=
  Scalar.lesser (Scalar.ofNat bytes) b.capacity

/-- Tries to take `charge` tokens.  Returns the seconds until they will be there when
they are not. -/
def take (b : Bucket R) (charge : R) (now : Int) : Option R × Bucket R :=
  let b := b.fill now
  if charge ≤ b.tokens then (none, { b with tokens := b.tokens - charge })
  else (some ((charge - b.tokens) / b.rate), b)

end Bucket

namespace Bucket

/-- The rate of a bucket in bits per second. -/
def bitrate (b : Bucket Float) : UInt32 :=
  (b.rate * 8.0).toUInt32

end Bucket

end Framecast
