/-
Waiting for the pacer.

A datagram goes out once its bytes are allowed.  The wait for them is computed from
the rate, and as a sleep never ends early, one sleep is enough unless rounding made
it too short; the number of attempts bounds the sleeps in any case.
-/
import Framecast.Network.Basic
import Framecast.Rate.Bucket

namespace Framecast.Bucket

/-- The most attempts at one datagram. -/
def maxAttempts : Nat := 64

/-- Takes the tokens for `bytes`, sleeping until they are there; `span` is how long to sleep
for a number of seconds. -/
def waitFor {R : Type} [Scalar R] (span : R → Nat) (bytes : Nat) :
    (attempts : Nat) → Bucket R → Network → Bucket R × Network
  | 0, b, n => (b, n)
  | attempts + 1, b, n =>
    match b.take (b.charge bytes) n.now with
    | (none, b) => (b, n)
    | (some seconds, b) => waitFor span bytes attempts b (n.sleep (span seconds))

/-- Takes the tokens for a datagram. -/
def await (b : Bucket Float) (bytes : Nat) (n : Network) : Bucket Float × Network :=
  waitFor Time.ofSeconds bytes maxAttempts b n

end Framecast.Bucket
