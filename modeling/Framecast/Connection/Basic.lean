/-
Connections: what one end keeps once both ends have proved the key.

The host of a stream paces what it sends; the viewer does not.  A packet that was
read is on lease to the reader, and nothing else is read while the lease is out.  The
counters only ever grow.
-/
import Framecast.Action
import Framecast.Cipher.Sealed
import Framecast.Rate.Bucket
import Framecast.Rate.Settings
import Framecast.Retention.Registry

namespace Framecast

/-- The two ends of a connection. -/
inductive Role where
  /-- The host of the stream. -/
  | server
  /-- The viewer. -/
  | client
  deriving DecidableEq, Repr, Inhabited

/-- The name of a role in messages. -/
def Role.title : Role → String
  | server => "Server"
  | client => "Client"

/-- What a connection counts. -/
structure Counters where
  packetsSent : Nat := 0
  bytesSent : Nat := 0
  /-- Fragments sent again because the peer asked for them. -/
  resent : Nat := 0
  /-- Fragments asked for that are no longer kept. -/
  forgotten : Nat := 0
  sendFailures : Nat := 0
  packetsReceived : Nat := 0
  bytesReceived : Nat := 0
  /-- Datagrams that are no sealed packet. -/
  rejected : Nat := 0
  /-- Reads that ended without a datagram. -/
  readTimeouts : Nat := 0
  deriving DecidableEq, Repr, Inhabited

/-- One end of a connection. -/
structure Connection where
  role : Role
  peer : Endpoint
  key : Key
  readTimeout : Nat
  stores : Stores := {}
  /-- The pacer of a host. -/
  bucket : Option (Bucket Float) := none
  /-- The bits of the correction share the peer asked for last. -/
  fec : UInt64 := 0
  nextMessage : Int32 := 0
  /-- Whether a packet is on lease. -/
  leased : Bool := false
  phase : Phase := .connected
  counters : Counters := {}

/-- A connection and the network it works on. -/
structure Link where
  connection : Connection
  network : Network

namespace Link

/-- Runs an action of the network. -/
def onNetwork {α : Type} (a : Action Network α) : Action Link α := fun l =>
  match a l.network with
  | (r, network) => (r, { l with network })

/-- Changes the connection. -/
def update (l : Link) (f : Connection → Connection) : Link :=
  { l with connection := f l.connection }

/-- Changes the counters. -/
def count (l : Link) (f : Counters → Counters) : Link :=
  l.update fun c => { c with counters := f c.counters }

/-- Whether the connection is closed. -/
def isClosed (l : Link) : Bool :=
  l.connection.phase = .closed

/-- Fails on a closed connection. -/
def ensureOpen : Action Link Unit := fun l =>
  if l.isClosed then (.error .closed, l) else (.ok (), l)

/-- Closes the connection. -/
def close (l : Link) : Link :=
  l.update fun c => { c with phase := .closed }

/-- Gives a channel a store. -/
def register (channel : Channel) (maxUnit units : Nat) : Action Link Unit := fun l =>
  match l.connection.stores.register channel maxUnit units with
  | .error e => (.error e, l)
  | .ok stores => (.ok (), l.update fun c => { c with stores })

/-- Applies what the peer asks for: the burst rate paces from now on, the correction
share is only noted. -/
def applySettings (burst : UInt32) (fec : UInt64) : Action Link Unit := fun l =>
  match l.connection.bucket with
  | none => (.error .noPacer, l)
  | some bucket =>
    let bucket := bucket.setRate burst.toNat l.network.now
    (.ok (), l.update fun c => { c with fec, bucket := some bucket })

end Link

end Framecast
