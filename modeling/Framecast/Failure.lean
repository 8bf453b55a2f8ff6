/-
Why an operation failed.

One value per cause, and one function that words it.  That a read found nothing, or
found noise, is no failure: such reads return no packet.
-/
import Framecast.Channel
import Framecast.Network.Errno
import Framecast.Text.Hex
import Framecast.Text.Quoted

namespace Framecast

/-- The life of a connection.  Phases come in this order and none comes twice. -/
inductive Phase where
  | idle
  | connecting
  | connected
  | closed
  deriving DecidableEq, Repr, Inhabited

/-- The place of a phase in the order. -/
def Phase.rank : Phase → Nat
  | idle => 0
  | connecting => 1
  | connected => 2
  | closed => 3

/-- The name of a phase in error messages. -/
def Phase.title : Phase → String
  | idle => "Uninitialized"
  | connecting => "Connecting"
  | connected => "Connected"
  | closed => "Closed"

/-- What is wrong with bytes that should have had a format, or with a returned lease. -/
inductive Malformation where
  | bundleLength
  | bundleHeader
  | bundleUnit
  | rendezvousEntry
  | foreignLease
  deriving DecidableEq, Repr

/-- The words for a malformation. -/
def Malformation.message : Malformation → String
  | bundleLength => "bundle length field"
  | bundleHeader => "bundle header"
  | bundleUnit => "bundle frame size"
  | rendezvousEntry => "STUN entry"
  | foreignLease => "packet guard from another context"

/-- What is wrong with a configuration. -/
inductive ConfigFault where
  /-- The text is not the expected document. -/
  | unreadable
  | unsupportedVersion (version : Nat)
  | keyMissing
  | keyNotHex (why : Hex.Fault)
  | keyLength
  | socketZero
  | badDestination (text : String)
  | badRendezvous (text : String)
  | duplicateBuffer (channel : Channel)
  | noBuffers
  | messageBufferTooLarge
  | destinationMissing
  /-- A fault in words of the caller. -/
  | worded (text : String)
  deriving DecidableEq, Repr

/-- The words for a fault in a hexadecimal text. -/
def Hex.Fault.message : Hex.Fault → String
  | oddLength => "Odd number of digits"
  | badDigit byte place =>
    let shown := String.ofList (Text.quoteChar (Char.ofNat byte.toNat))
    s!"Invalid character {shown} at position {place}"

/-- The words for a fault in a configuration. -/
def ConfigFault.message : ConfigFault → String
  | unreadable => "invalid config TOML"
  | unsupportedVersion version => s!"unsupported config version {version}"
  | keyMissing => "connection.key is required"
  | keyNotHex why => "private key is not hex: " ++ why.message
  | keyLength => "private key must be 16 bytes"
  | socketZero => "connection.port must be non-zero"
  | badDestination text =>
    "connection.destination " ++ String.ofList (Text.quote text.toList) ++
      ": invalid IPv4 address syntax"
  | badRendezvous text =>
    "connection.stun " ++ String.ofList (Text.quote text.toList) ++
      ": invalid socket address syntax"
  | duplicateBuffer channel => "duplicate nack buffer for " ++ channel.title
  | noBuffers => "nack_buffers.num_buffers must be non-zero"
  | messageBufferTooLarge => "message nack buffer max_payload_size must be at most 1285"
  | destinationMissing => "client needs a destination"
  | worded text => text

/-- Why an operation failed. -/
inductive Failure where
  | system (errno : Errno)
  /-- A listener waited in vain. -/
  | noCaller
  | packetTooLarge (size limit : Nat)
  | payloadTooLarge (channel : Channel) (size fragments fragmentLimit sizeLimit : Nat)
  | alreadyRetained (channel : Channel)
  | notRetained (channel : Channel)
  /-- The fragment asked for is no longer kept. -/
  | forgotten (channel : Channel) (id : Int32) (index : UInt16)
  | leaseOut
  | malformed (what : Malformation)
  | sealing
  | opening
  /-- The peer's proof does not fit the challenge and the key. -/
  | proofRejected
  | handshakeTimeout
  | rendezvousTimeout
  | rendezvousMismatch
  | unknownPeer
  | partialSend (sent total : Nat)
  | noPacer
  /-- The table of a store cannot be laid out.  No caller goes on after this one: the program
  ends. -/
  | tableTooLarge
  | closed
  | backwards (source target : Phase)
  | configuration (why : ConfigFault)
  deriving DecidableEq, Repr

namespace Failure

/-- The words for a failure. -/
def message : Failure → String
  | system errno => errno.name
  | noCaller => "TimedOut: no client connected"
  | packetTooLarge size limit =>
    s!"packet of {size} bytes exceeds the {limit} byte datagram limit"
  | payloadTooLarge channel size fragments fragmentLimit sizeLimit =>
    channel.title ++ s!" payload of {size} bytes needs {fragments} fragments, " ++
      s!"limit is {fragmentLimit} fragments / {sizeLimit} bytes"
  | alreadyRetained channel => "NACK buffer for " ++ channel.title ++ " is already registered"
  | notRetained channel => "no NACK buffer registered for " ++ channel.title
  | forgotten channel id index =>
    channel.title ++ " packet id " ++ toString id.toInt ++ " index " ++ toString index.toNat ++
      " is not in the NACK buffer"
  | leaseOut => "another packet read is in progress or still checked out"
  | malformed what => "malformed " ++ what.message
  | sealing => "encryption failed"
  | opening => "decryption failed"
  | proofRejected => "handshake failed: peer proof did not verify"
  | handshakeTimeout => "handshake timed out"
  | rendezvousTimeout => "STUN rendezvous timed out"
  | rendezvousMismatch => "STUN response does not match the request"
  | unknownPeer => "STUN server does not know a peer at the requested address"
  | partialSend sent total => s!"sent {sent} of {total} fragments"
  | noPacer => "only the server side owns a throttler"
  | tableTooLarge => "capacity overflow"
  | closed => "socket context is closed"
  | backwards source target =>
    "connection cannot move from " ++ source.title ++ " to " ++ target.title
  | configuration why => "invalid configuration: " ++ why.message

/-- Whether the operation may well succeed when tried again. -/
def isTransient : Failure → Bool
  | system errno => errno.isTransient
  | noCaller => true
  | _ => false

end Failure

/-- Moves a connection on to a later phase. -/
def Phase.advance (source target : Phase) : Except Failure Phase :=
  if target.rank ≤ source.rank then .error (.backwards source target) else .ok target

end Framecast
