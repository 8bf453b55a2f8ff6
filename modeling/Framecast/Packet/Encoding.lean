/-
The wire form of a packet.

    channel  id  index  count  payload size  resent  payload
       1      4    2      2         4           1      ...

All numbers are big-endian.  The reader accepts a byte string only if it is the
whole wire form of a valid packet: a known channel, a resent byte of zero or one,
an index below the count, and a payload of exactly the stated size.
-/
import Framecast.Packet.Basic

namespace Framecast.Packet

/-- The wire form of `p`. -/
def encode (p : Packet) : Bytes :=
  Field.digits 1 p.channel.tag.toNat ++
  Field.digits 4 p.id.toUInt32.toNat ++
  Field.digits 2 p.index.toNat ++
  Field.digits 2 p.count.toNat ++
  Field.digits 4 p.payload.length ++
  Field.digits 1 (if p.resent then 1 else 0) ++
  p.payload

/-- The truth value a byte stands for. -/
def flag? : Nat → Option Bool
  | 0 => some false
  | 1 => some true
  | _ => none

/-- Reads the wire form of a packet. -/
def decode? (b : Bytes) : Option Packet := do
  let (tag, b) ← Field.take? 1 b
  let channel ← Channel.ofTag? (UInt8.ofNat tag)
  let (id, b) ← Field.take? 4 b
  let (index, b) ← Field.take? 2 b
  let (count, b) ← Field.take? 2 b
  let (size, b) ← Field.take? 4 b
  let (resent, payload) ← Field.take? 1 b
  let resent ← flag? resent
  let p : Packet :=
    { channel
      id := (UInt32.ofNat id).toInt32
      index := UInt16.ofNat index
      count := UInt16.ofNat count
      resent
      payload }
  if p.Valid ∧ payload.length = size then some p else none

end Framecast.Packet
