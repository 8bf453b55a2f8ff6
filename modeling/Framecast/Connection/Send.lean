/-
Sending.

A unit is refused as a whole when it is too large; otherwise each of its fragments is
kept and sent, whatever became of the others.  A packet is sealed, waits for the
pacer, and is offered to the operating system again while that lacks room.
-/
import Framecast.Connection.Basic
import Framecast.Connection.Pace
import Framecast.Control
import Framecast.Packet.Unit
import Framecast.Packet.Encoding

namespace Framecast.Link

/-- How often a datagram is offered again for want of room. -/
def maxRetries : Nat := 5

/-- The pause before a datagram is offered again. -/
def retryPause : Nat := Time.millisecond

/-- Offers a datagram, and up to `retries` more times while there is no room for it. -/
def offer (datagram : Bytes) : (retries : Nat) → Network → Except Errno Unit × Network
  | 0, n => n.send datagram
  | retries + 1, n =>
    match n.send datagram with
    | (.ok (), n) => (.ok (), n)
    | (.error errno, n) =>
      if errno.isBufferFull then offer datagram retries (n.sleep retryPause) else (.error errno, n)

/-- Waits until the pacer, if there is one, allows `bytes` more bytes. -/
def pace (bytes : Nat) (l : Link) : Link :=
  match l.connection.bucket with
  | none => l
  | some bucket =>
    let (bucket, network) := bucket.await bytes l.network
    { l.update fun c => { c with bucket := some bucket } with network }

/-- Sends a sealed packet and counts it. -/
def transmit (datagram : Bytes) : Action Link Unit := fun l =>
  match offer datagram maxRetries l.network with
  | (.ok (), network) =>
    (.ok (), { l with network }.count fun c =>
      { c with packetsSent := c.packetsSent + 1, bytesSent := c.bytesSent + datagram.length })
  | (.error errno, network) =>
    (.error (.system errno), { l with network }.count fun c =>
      { c with sendFailures := c.sendFailures + 1 })

/-- Seals a packet with a fresh nonce. -/
def sealPacket (p : Packet) : Action Link Bytes := do
  let nonce ← onNetwork (Network.drawBytes Sealed.nonceSize)
  .read fun l => Sealed.wrap l.connection.key nonce p.encode

/-- Sends one packet. -/
def sendPacket (p : Packet) : Action Link Unit := do
  ensureOpen
  if p.size > Packet.maxSize then .fail (.packetTooLarge p.size Packet.maxSize) else
  let datagram ← sealPacket p
  .change (pace datagram.length)
  transmit datagram

/-- How large a unit may be: the most fragments, and the most bytes. -/
def unitLimits (stores : Stores) (channel : Channel) : Nat × Nat :=
  let (fragments, bytes) :=
    match stores.get? channel with
    | some store => (min store.places 65535, store.maxUnit)
    | none => (1, Packet.maxPayload)
  -- a control message must be whole in one packet
  if channel = .message then (1, bytes) else (fragments, bytes)

/-- Checks that a unit is not too large. -/
def checkUnit (stores : Stores) (channel : Channel) (size : Nat) : Except Failure Unit :=
  let count := fragmentCount size Packet.maxPayload
  let (fragments, bytes) := unitLimits stores channel
  if count > fragments ∨ size > bytes then
    .error (.payloadTooLarge channel size count fragments bytes)
  else .ok ()

/-- Keeps a fragment, if its channel has a store. -/
def keep (p : Packet) (l : Link) : Link :=
  l.update fun c => { c with stores := (c.stores.insert p.channel p).2 }

/-- Keeps and sends every fragment.  Returns how many went out. -/
def sendAll : List Packet → Link → Nat × Link
  | [], l => (0, l)
  | p :: rest, l =>
    match sendPacket p (keep p l) with
    | (.ok (), l) =>
      let (sent, l) := sendAll rest l
      (sent + 1, l)
    | (.error _, l) => sendAll rest l

/-- Sends a unit. -/
def sendUnit (channel : Channel) (payload : Bytes) (id : Int32) : Action Link Unit := do
  ensureOpen
  let stores ← .read fun l => l.connection.stores
  .ofExcept (checkUnit stores channel payload.length)
  let packets := fragments channel id payload Packet.maxPayload
  let sent ← fun l => match sendAll packets l with | (sent, l) => (.ok sent, l)
  if sent = packets.length then pure () else .fail (.partialSend sent packets.length)

/-- Sends a control message as the next unit of its channel. -/
def sendControl (m : Control) : Action Link Unit := do
  let id ← .read fun l => l.connection.nextMessage
  .change fun l => l.update fun c => { c with nextMessage := c.nextMessage + 1 }
  sendUnit .message m.encode id

/-- Sends a fragment again. -/
def resend (channel : Channel) (id : Int32) (index : UInt16) : Action Link Unit := fun l =>
  match l.connection.stores.find channel id index with
  | (.ok p, stores) =>
    sendPacket p
      ((l.update fun c => { c with stores }).count fun c => { c with resent := c.resent + 1 })
  | (.error e, stores) =>
    let l := l.update fun c => { c with stores }
    match e with
    | .forgotten .. => (.error e, l.count fun c => { c with forgotten := c.forgotten + 1 })
    | _ => (.error e, l)

end Framecast.Link
