/-
The configuration of one end of a connection.

It says how to find and to recognise the peer, which sent fragments to keep, and how
to receive.  All spans are in nanoseconds.
-/
import Framecast.Address.Endpoint
import Framecast.Channel
import Framecast.Cipher.Key
import Framecast.Rate.Settings
import Framecast.Time

namespace Framecast

namespace Configuration

/-- The socket number of a host that names no other. -/
def defaultSocket : UInt16 := 32262

/-- How to find the peer and to recognise it. -/
structure Meeting where
  key : Key
  /-- The socket number a host is found at. -/
  socket : UInt16 := defaultSocket
  /-- The address of the host. -/
  host : Option IPv4 := none
  /-- The rendezvous server, if the ends meet through one. -/
  rendezvous : Option Endpoint := none
  /-- How long a read waits for a packet. -/
  readTimeout : Nat := 5 * Time.millisecond
  /-- How long a connection may take to be set up. -/
  setupTimeout : Nat := 5000 * Time.millisecond
  /-- How long to wait for the rendezvous server. -/
  rendezvousTimeout : Nat := 5000 * Time.millisecond
  deriving DecidableEq, Repr

/-- What to keep of a channel for sending again. -/
structure Retention where
  channel : Channel
  /-- The bytes of the largest unit. -/
  maxUnit : Nat
  /-- How many units to keep. -/
  units : Nat
  deriving DecidableEq, Repr, Inhabited

/-- What is kept unless something else is asked for. -/
def Retention.defaults : List Retention :=
  [{ channel := .video, maxUnit := 1048576, units := 25 },
   { channel := .audio, maxUnit := 4096, units := 256 }]

/-- How to receive. -/
structure Reception where
  /-- Units in flight per channel. -/
  ringSize : Nat := 275
  /-- Whole units that may wait to be taken. -/
  queueCapacity : Nat := 32
  /-- The time between two rounds of requests. -/
  requestInterval : Nat := 10 * Time.millisecond
  /-- The length of a period of measurement. -/
  period : Nat := 1000 * Time.millisecond
  /-- Whether to ask the peer for other rates. -/
  adapts : Bool := false
  policy : Policy := .ratio
  deriving DecidableEq, Repr, Inhabited

end Configuration

/-- The configuration of one end. -/
structure Configuration where
  version : Nat
  meeting : Configuration.Meeting
  retention : List Configuration.Retention
  reception : Configuration.Reception
  deriving DecidableEq, Repr

/-- The version of the configuration format. -/
def Configuration.currentVersion : Nat := 1

end Framecast
