/-
Packets: one fragment of one unit.

A unit is a frame, an audio chunk or a control message.  It travels as `count`
packets that share channel and id and differ in `index`.
-/
import Framecast.Bytes.Field
import Framecast.Channel

namespace Framecast

/-- One fragment of a unit. -/
structure Packet where
  channel : Channel := .video
  /-- Counts the units of the channel, as the sender numbers them. -/
  id : Int32 := 0
  /-- The place of this fragment in its unit, counted from zero. -/
  index : UInt16 := 0
  /-- The number of fragments of the unit. -/
  count : UInt16 := 1
  /-- Whether the packet answers a request for a missing fragment. -/
  resent : Bool := false
  payload : Bytes := []
  deriving DecidableEq, Repr, Inhabited

namespace Packet

/-- The most payload bytes one packet carries. -/
def maxPayload : Nat := 1285

/-- The bytes in front of the payload on the wire. -/
def headerSize : Nat := 14

/-- The most bytes of one packet on the wire, before sealing. -/
def maxSize : Nat := headerSize + maxPayload

/-- The number of bytes of a packet on the wire, before sealing. -/
def size (p : Packet) : Nat := headerSize + p.payload.length

/-- A packet that a receiver accepts: its index is a place of its unit and its payload
fits. -/
def Valid (p : Packet) : Prop :=
  p.index < p.count ∧ p.payload.length ≤ maxPayload

instance (p : Packet) : Decidable p.Valid :=
  inferInstanceAs (Decidable (_ ∧ _))

end Packet

end Framecast
