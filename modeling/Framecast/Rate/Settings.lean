/-
What a receiver asks of the sender, and what it measured.

Settings travel from the client to the server: how fast to encode, how fast to send
at most, and with what.  Measurements are counts of one period brought to one
second.
-/

namespace Framecast

/-- Video codecs a client may ask for. -/
inductive Codec where
  | unknown
  | h264
  | h265
  deriving DecidableEq, Repr, Inhabited

namespace Codec

/-- The number of a codec on the wire. -/
def number : Codec → UInt16
  | unknown => 0
  | h264 => 264
  | h265 => 265

/-- The codec a number stands for; unheard-of numbers stand for an unknown one. -/
def ofNumber : UInt16 → Codec
  | 264 => h264
  | 265 => h265
  | _ => unknown

end Codec

/-- What the client asks the server for. -/
structure Settings where
  /-- Average encoder rate, in bits per second. -/
  bitrate : UInt32 := 15400000
  /-- The most the server may send in a short while, in bits per second. -/
  burst : UInt32 := 100000000
  /-- The share of packets spent on error correction: the bit pattern of a 64-bit
  floating-point number, kept as it came. -/
  fec : UInt64 := 0
  fps : UInt32 := 60
  codec : Codec := .h264
  deriving DecidableEq, Repr, Inhabited

namespace Settings

/-- The range of bitrates asked for. -/
def minBitrate : Nat := 2000000

/-- The upper end of the range of bitrates. -/
def maxBitrate : Nat := 30000000

/-- The bitrate before anything was measured. -/
def startBitrate : Nat := 15400000

/-- The burst rate before anything was measured, and the most ever asked for. -/
def startBurst : Nat := 100000000

/-- The bitrate asked for on a bad link by the two-level policy. -/
def badBitrate : Nat := 10400000

/-- The burst rate asked for on a bad link by the two-level policy. -/
def badBurst : Nat := 31800000

/-- Field by field equality, rates by value and the correction share as floating-point
numbers compare, so that no settings equal others when the share is not a number. -/
def same (a b : Settings) : Bool :=
  a.bitrate = b.bitrate && a.burst = b.burst &&
    Float.ofBits a.fec == Float.ofBits b.fec && a.fps = b.fps && a.codec = b.codec

end Settings

/-- The counts of one closed period, per second. -/
structure Statistics where
  requests : UInt32 := 0
  received : UInt32 := 0
  skipped : UInt32 := 0
  rendered : UInt32 := 0
  /-- Payload bits received. -/
  throughput : UInt64 := 0
  /-- False until a whole period was measured. -/
  gathered : Bool := false
  deriving DecidableEq, Repr, Inhabited

/-- How a receiver turns measurements into settings. -/
inductive Policy where
  /-- Follows the share of packets that arrive, and probes upwards. -/
  | ratio
  /-- Follows the measured throughput. -/
  | average
  /-- Switches between two levels. -/
  | twoLevel
  deriving DecidableEq, Repr, Inhabited

namespace Policy

/-- All policies. -/
def all : List Policy := [.ratio, .average, .twoLevel]

/-- The word for a policy in configuration texts. -/
def word : Policy → String
  | ratio => "ratio_ewma"
  | average => "ewma"
  | twoLevel => "fallback"

/-- The policy a word stands for. -/
def ofWord? (s : String) : Option Policy :=
  all.find? fun p => p.word = s

end Policy

end Framecast
