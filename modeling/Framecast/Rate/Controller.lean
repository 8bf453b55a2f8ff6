/-
The rate controller of a receiver.

Each closed period it turns the measurements into the settings to ask for next.
Frame rate, correction share and codec always pass through from the defaults, and
until something was measured the defaults are the answer.
-/
import Framecast.Rate.Settings
import Framecast.Rate.Expectation

namespace Framecast

/-- What the controller remembers between periods. -/
structure Controller where
  policy : Policy
  defaults : Settings
  /-- The settings last asked for. -/
  current : Settings
  /-- The throughput to expect; the bitrate is a quarter more. -/
  throughput : Expectation
  burst : Expectation
  /-- The running average of the measured throughput. -/
  average : Float

namespace Controller

/-- A controller that has measured nothing. -/
def ofDefaults (policy : Policy) (defaults : Settings) : Controller :=
  let start := Float.ofNat defaults.bitrate.toNat / 1.25
  { policy
    defaults
    current := defaults
    throughput := { expected := Arithmetic.truncate start }
    burst := { expected := defaults.burst.toNat }
    average := start }

/-- A controller with the usual defaults. -/
def ofPolicy (policy : Policy) : Controller :=
  ofDefaults policy {}

/-- Holds a rate within bounds. -/
def clamp (lo hi : Nat) (rate : Int) : Int :=
  max (lo : Int) (min rate (hi : Int))

/-- A bitrate within the range that is asked for. -/
def clampBitrate (rate : Int) : Int :=
  clamp Settings.minBitrate Settings.maxBitrate rate

/-- A clamped rate as it stands in settings. -/
def toRate (rate : Int) : UInt32 :=
  UInt32.ofNat rate.toNat

/-- Follows the share of fragments that arrived unasked. -/
def followArrivals (c : Controller) (s : Statistics) (arithmetic : Arithmetic) : Controller :=
  if s.received.toNat + s.requests.toNat > 0 then
    let estimate := arithmetic.scaled c.throughput.expected s.received.toNat s.requests.toNat
    let seen := c.throughput.observe estimate arithmetic
    let bitrate := arithmetic.bitrateOf seen.expected
    let held := clampBitrate bitrate
    let seen :=
      if held ≠ bitrate then { seen with expected := arithmetic.throughputOf held } else seen
    { c with throughput := seen, current := { c.current with bitrate := toRate held } }
  else c

/-- Follows the share of frames that could be shown. -/
def followFrames (c : Controller) (s : Statistics) (arithmetic : Arithmetic) : Controller :=
  if s.rendered > 0 then
    let estimate := arithmetic.scaled c.burst.expected s.rendered.toNat s.skipped.toNat
    let seen := c.burst.observe estimate arithmetic
    let held := clamp Settings.minBitrate Settings.startBurst seen.expected
    { c with
      burst := { seen with expected := held }
      current := { c.current with burst := toRate held } }
  else c

/-- Follows the measured throughput. -/
def followThroughput (c : Controller) (s : Statistics) (arithmetic : Arithmetic) : Controller :=
  let average := arithmetic.average c.average s.throughput
  let held := clampBitrate (arithmetic.bitrateOfAverage average)
  { c with
    average
    current := { c.current with bitrate := toRate held, burst := c.defaults.burst } }

/-- The most requests per second that the two-level policy takes for a good link. -/
def requestLimit : UInt32 := 6

/-- Chooses the level for the number of requests. -/
def chooseLevel (c : Controller) (s : Statistics) : Controller :=
  if s.requests > requestLimit then
    { c with current :=
        { c.current with
          bitrate := UInt32.ofNat Settings.badBitrate
          burst := UInt32.ofNat Settings.badBurst } }
  else
    { c with current :=
        { c.current with bitrate := c.defaults.bitrate, burst := c.defaults.burst } }

/-- Takes in one period and returns the settings to ask for. -/
def update (c : Controller) (s : Statistics) (arithmetic : Arithmetic := .binary64) :
    Settings × Controller :=
  if ¬ s.gathered then (c.defaults, c) else
  let c :=
    match c.policy with
    | .ratio => (c.followArrivals s arithmetic).followFrames s arithmetic
    | .average => c.followThroughput s arithmetic
    | .twoLevel => c.chooseLevel s
  let current :=
    { c.current with
      fps := c.defaults.fps
      fec := c.defaults.fec
      codec := c.defaults.codec }
  (current, { c with current })

end Controller

end Framecast
