/-
What the world does to a program, written down beforehand.

A program meets the world in the calls it makes: each receive call brings one
arrival, each send call is accepted or refused, some other calls always fail, and
random bytes come from a source.  A script fixes all of this, so that a run of the
program is a function of its script and leaves a trace of effects.
-/
import Framecast.Address.Endpoint
import Framecast.Network.Errno
import Framecast.Time

namespace Framecast

/-- What a receive call brings. -/
inductive Arrival where
  | datagram (bytes : Bytes) (sender : Endpoint)
  | failure (errno : Errno)
  /-- Nothing comes until the read timeout is over. -/
  | silence
  deriving DecidableEq, Repr, Inhabited

/-- An arrival and the time it takes to come. -/
structure Event where
  arrival : Arrival
  /-- Nanoseconds from the call to the arrival; silence lasts as long as the read
  timeout instead. -/
  delay : Nat := 0
  deriving DecidableEq, Repr, Inhabited

/-- What a program does that the world can see. -/
inductive Effect where
  | sent (datagram : Bytes)
  | sentTo (destination : Endpoint) (datagram : Bytes)
  | refused (errno : Errno)
  | bound (endpoint : Endpoint)
  | connected (endpoint : Endpoint)
  | slept (span : Nat)
  deriving DecidableEq, Repr, Inhabited

/-- Calls that always fail, and how. -/
structure Faults where
  openSocket : Option Errno := none
  bind : Option Errno := none
  connect : Option Errno := none
  setReadTimeout : Option Errno := none
  deriving DecidableEq, Repr, Inhabited

/-- A source of random bytes, which may run dry. -/
structure RandomSource where
  /-- The bytes of the source, in order. -/
  byte : Nat → UInt8
  /-- How many were drawn. -/
  drawn : Nat := 0
  /-- How many there are, if they are limited. -/
  limit : Option Nat := none

namespace RandomSource

/-- The source whose bytes climb in equal steps from a first one. -/
def stepping (first step : Nat) (limit : Option Nat) : RandomSource :=
  { byte := fun k => UInt8.ofNat (first + step * k), limit }

instance : Inhabited RandomSource := ⟨stepping 0 37 none⟩

/-- Draws bytes.  A source with too few left gives none and keeps them. -/
def draw? (r : RandomSource) (size : Nat) : Option (Bytes × RandomSource) :=
  if r.limit.any (· < r.drawn + size) then none
  else
    let bytes := (List.range size).map fun i => r.byte (r.drawn + i)
    some (bytes, { r with drawn := r.drawn + size })

end RandomSource

end Framecast
