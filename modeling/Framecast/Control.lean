/-
Control messages and their wire form.

    0x01 missing fragment   channel 1, id 4, index 2
    0x02 settings           bitrate 4, burst 4, correction share 8, fps 4, codec 2
    0x10 cursor             size 4, body
    0x11 clipboard          size 4, body
    0x12 file chunk         size 4, body

A tag byte comes first and all numbers are big-endian; the correction share is the
bit pattern of a 64-bit floating-point number.  Nothing may follow a message.  What
the bodies of the last three mean is the business of whoever sends them.
-/
import Framecast.Packet.Basic
import Framecast.Rate.Settings

namespace Framecast

/-- What an opaque body is for. -/
inductive BodyKind where
  | cursor
  | clipboard
  | file
  deriving DecidableEq, Repr, Inhabited

/-- One control message. -/
inductive Control where
  /-- Asks for a fragment that did not arrive. -/
  | missing (channel : Channel) (id : Int32) (index : UInt16)
  /-- Asks the server for other settings. -/
  | settings (wanted : Settings)
  | body (kind : BodyKind) (bytes : Bytes)
  deriving DecidableEq, Repr, Inhabited

/-- The tag of an opaque body. -/
def BodyKind.tag : BodyKind → UInt8
  | cursor => 0x10
  | clipboard => 0x11
  | file => 0x12

namespace Control

/-- The most bytes of an opaque body that fits one packet. -/
def maxBody : Nat := Packet.maxPayload - 1 - 4

/-- The number of bytes of a message on the wire. -/
def size : Control → Nat
  | missing .. => 1 + (1 + 4 + 2)
  | settings .. => 1 + (4 + 4 + 8 + 4 + 2)
  | body _ bytes => 1 + (4 + bytes.length)

/-- The wire form of a message. -/
def encode : Control → Bytes
  | missing channel id index =>
    0x01 ::
      (Field.digits 1 channel.tag.toNat ++ Field.digits 4 id.toUInt32.toNat ++
        Field.digits 2 index.toNat)
  | settings s =>
    0x02 ::
      (Field.digits 4 s.bitrate.toNat ++ Field.digits 4 s.burst.toNat ++
        Field.digits 8 s.fec.toNat ++ Field.digits 4 s.fps.toNat ++
        Field.digits 2 s.codec.number.toNat)
  | body kind bytes =>
    kind.tag :: (Field.digits 4 bytes.length ++ bytes)

/-- Reads what follows the tag of a missing-fragment message. -/
def takeMissing? (b : Bytes) : Option (Control × Bytes) := do
  let (tag, b) ← Field.take? 1 b
  let (id, b) ← Field.take? 4 b
  let (index, b) ← Field.take? 2 b
  let channel ← Channel.ofTag? (UInt8.ofNat tag)
  some (missing channel (UInt32.ofNat id).toInt32 (UInt16.ofNat index), b)

/-- Reads what follows the tag of a settings message. -/
def takeSettings? (b : Bytes) : Option (Control × Bytes) := do
  let (bitrate, b) ← Field.take? 4 b
  let (burst, b) ← Field.take? 4 b
  let (fec, b) ← Field.take? 8 b
  let (fps, b) ← Field.take? 4 b
  let (codec, b) ← Field.take? 2 b
  some
    (settings
      { bitrate := UInt32.ofNat bitrate
        burst := UInt32.ofNat burst
        fec := UInt64.ofNat fec
        fps := UInt32.ofNat fps
        codec := Codec.ofNumber (UInt16.ofNat codec) }, b)

/-- Reads what follows the tag of an opaque body. -/
def takeBody? (kind : BodyKind) (b : Bytes) : Option (Control × Bytes) := do
  let (size, b) ← Field.take? 4 b
  if size ≤ b.length then some (body kind (b.take size), b.drop size) else none

/-- Reads a message and returns what follows it. -/
def take? : Bytes → Option (Control × Bytes)
  | 0x01 :: b => takeMissing? b
  | 0x02 :: b => takeSettings? b
  | 0x10 :: b => takeBody? .cursor b
  | 0x11 :: b => takeBody? .clipboard b
  | 0x12 :: b => takeBody? .file b
  | _ => none

/-- Reads a message that nothing follows. -/
def decode? (b : Bytes) : Option Control :=
  match take? b with
  | some (m, []) => some m
  | _ => none

end Control

end Framecast
