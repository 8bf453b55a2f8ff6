/-
Several connections on one network.

Each packet that was read is on lease from the connection that read it.  A lease ends
when it is dropped or given back; giving it to a connection it is not from is an
error, and ends it all the same.
-/
import Framecast.Connection.Receive
import Framecast.Connection.Setup
import Framecast.Reception.Receiver

namespace Framecast

/-- A packet on lease. -/
structure Lease where
  /-- The place of the connection that read it. -/
  owner : Nat
  packet : Packet
  deriving DecidableEq, Repr, Inhabited

/-- A program with several connections. -/
structure Host where
  network : Network
  connections : Array Connection := #[]
  leases : List Lease := []

namespace Host

/-- Sets a connection up; it takes the next place. -/
def setUp (h : Host) (a : Action Network Connection) : Except Failure Connection × Host :=
  match a h.network with
  | (.ok c, network) => (.ok c, { h with network, connections := h.connections.push c })
  | (.error e, network) => (.error e, { h with network })

/-- The connection at a place, with the network. -/
def link? (h : Host) (i : Nat) : Option Link :=
  h.connections[i]?.map fun connection => { connection, network := h.network }

/-- Puts a connection and the network back. -/
def putLink (h : Host) (i : Nat) (l : Link) : Host :=
  { h with network := l.network, connections := h.connections.setIfInBounds i l.connection }

/-- Runs an action of the connection at a place, if there is one. -/
def run {α : Type} (h : Host) (i : Nat) (a : Action Link α) :
    Option (Except Failure α × Host) :=
  (h.link? i).map fun l =>
    match a l with
    | (r, l) => (r, h.putLink i l)

/-- Ends the leases of the connection at a place. -/
def release (h : Host) (i : Nat) : Host :=
  { h with
    connections := h.connections.modify i fun c => { c with leased := false }
    leases := h.leases.filter fun lease => lease.owner ≠ i }

/-- Ends all leases. -/
def releaseAll (h : Host) : Host :=
  (h.leases.map Lease.owner).foldl release h

/-- Reads a packet and keeps it on lease. -/
def lease (h : Host) (i : Nat) : Option (Except Failure (Option Packet) × Host) :=
  (h.run i Link.readPacket).map fun
    | (.ok (some packet), h) =>
      (.ok (some packet), { h with leases := { owner := i, packet } :: h.leases })
    | other => other

/-- Reads a packet and gives it back at once. -/
def readOnce (h : Host) (i : Nat) : Option (Except Failure (Option Packet) × Host) :=
  h.run i fun l =>
    match Link.readPacket l with
    | (.ok (some packet), l) => (.ok (some packet), l.release)
    | other => other

/-- Gives the lease of one connection back to another, or the same.  Nothing happens if
there is no such lease. -/
def giveBack (h : Host) (owner taker : Nat) : Option (Except Failure Unit × Host) :=
  if h.leases.any fun lease => lease.owner = owner then
    let result := if owner = taker then .ok () else .error (.malformed .foreignLease)
    some (result, h.release owner)
  else none

/-- Lets a receiver work on a connection until the script is used up.  Returns the
receiver afterwards. -/
def receive (h : Host) (i : Nat) (reception : Configuration.Reception) (events : List Event) :
    Option (Receiver × Host) :=
  let h := h.releaseAll
  let h := { h with network := { h.network with inbound := h.network.inbound ++ events } }
  (h.link? i).map fun l =>
    let r := (Receiver.start l reception).run
    (r, h.putLink i r.link)

end Host

end Framecast
