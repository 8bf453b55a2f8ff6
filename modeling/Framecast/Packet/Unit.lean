/-
Units of payload, cut into packets and put together again.

Fragment `i` of a unit carries the bytes from `i * limit` up to the next multiple
of `limit` or the end.  An empty unit still has one, empty, fragment.  Putting
together asks that the fragments agree on the unit they belong to and that no index
is missing; the order they come in and repetitions do not matter.
-/
import Framecast.Packet.Basic

namespace Framecast

/-- The number of fragments of at most `limit` bytes that `size` bytes need. -/
def fragmentCount (size limit : Nat) : Nat :=
  if size = 0 then 1 else (size + (max limit 1 - 1)) / max limit 1

/-- Cuts a payload into packets of at most `limit` bytes.  Index and count are kept in
16 bits; callers see to it that they fit. -/
def fragments (channel : Channel) (id : Int32) (payload : Bytes) (limit : Nat) :
    List Packet :=
  let step := max limit 1
  let count := fragmentCount payload.length limit
  let bytes := payload.toArray
  (List.range count).map fun i =>
    { channel
      id
      index := UInt16.ofNat i
      count := UInt16.ofNat count
      payload := (bytes.extract (i * step) ((i + 1) * step)).toList }

/-- Whether two packets belong to the same unit. -/
def Packet.sameUnit (p q : Packet) : Bool :=
  p.channel = q.channel && p.id = q.id && p.count = q.count

/-- The payload at place `i` of a unit: that of the first packet with this index. -/
def payloadAt? (packets : List Packet) (i : Nat) : Option Bytes :=
  (packets.find? fun p => p.index.toNat = i).map Packet.payload

/-- Puts a unit together from its fragments. -/
def unfragment (packets : List Packet) : Option Bytes :=
  match packets with
  | [] => none
  | first :: _ =>
    let count := first.count.toNat
    if packets.all fun p => p.sameUnit first && p.index.toNat < count then
      ((List.range count).mapM (payloadAt? packets)).map List.flatten
    else none

end Framecast
