/-
Receiving.

A read claims the lease before it looks at the network, so that at most one packet is
out.  Only a packet keeps the lease; a read that finds nothing, noise or a late
challenge, or fails, gives it back at once.
-/
import Framecast.Connection.Basic
import Framecast.Authentication.Exchange
import Framecast.Packet.Encoding

namespace Framecast.Link

/-- Opens a datagram and reads the packet in it. -/
def accept (datagram : Bytes) : Action Link (Option Packet) := fun l =>
  match (Sealed.unwrap? l.connection.key datagram).bind Packet.decode? with
  | none => (.ok none, l.count fun c => { c with rejected := c.rejected + 1 })
  | some p =>
    (.ok (some p), l.count fun c =>
      { c with
        packetsReceived := c.packetsReceived + 1
        bytesReceived := c.bytesReceived + datagram.length })

/-- Goes on after a receive call that brought no datagram. -/
def afterError (errno : Errno) : Action Link (Option Packet) := fun l =>
  if errno.isTransient then
    (.ok none, l.count fun c => { c with readTimeouts := c.readTimeouts + 1 })
  else if errno = .connectionRefused then (.ok none, l)
  else (.error (.system errno), l)

/-- Goes on after a datagram. -/
def afterDatagram (datagram : Bytes) : Action Link (Option Packet) := do
  if datagram.isEmpty then pure none else
  let key ← .read fun l => l.connection.key
  if ← onNetwork (Authentication.answerLate key datagram) then pure none else
  accept datagram

/-- One receive call and what it leads to. -/
def receiveOne : Action Link (Option Packet) := fun l =>
  match l.network.receive l.connection.readTimeout Sealed.maxSize with
  | (.error errno, network) => afterError errno { l with network }
  | (.ok (datagram, _), network) => afterDatagram datagram { l with network }

/-- Reads a packet, which is on lease from then on. -/
def readPacket : Action Link (Option Packet) := do
  ensureOpen
  if ← .read fun l => l.connection.leased then .fail .leaseOut else
  let packet ← receiveOne
  .change fun l => l.update fun c => { c with leased := packet.isSome }
  pure packet

/-- Gives the lease back. -/
def release (l : Link) : Link :=
  l.update fun c => { c with leased := false }

end Framecast.Link
