/-
Entries and requests of a rendezvous server.

    entry     ip 4  public socket 2  private socket 2
    request   kind 4  entry 8

All numbers are big-endian.  A host announces the public socket it is known by; a
caller asks for the host with some address and public socket.  The answer repeats
both and adds the private socket at which the host can really be reached, or zero if
the server knows no such host.
-/
import Framecast.Address.Endpoint
import Framecast.Failure

namespace Framecast.Rendezvous

/-- What a rendezvous server holds about a peer. -/
structure Entry where
  ip : IPv4
  /-- The socket number the peer is known by. -/
  publicSocket : UInt16
  /-- The socket number the peer can be reached at, or zero. -/
  privateSocket : UInt16
  deriving DecidableEq, Repr, Inhabited

namespace Entry

/-- The bytes of an entry. -/
def size : Nat := 8

/-- The wire form of an entry. -/
def encode (e : Entry) : Bytes :=
  e.ip.bytes ++ Field.digits 2 e.publicSocket.toNat ++ Field.digits 2 e.privateSocket.toNat

/-- Reads an entry and returns what follows it. -/
def take? (b : Bytes) : Option (Entry × Bytes) := do
  let (ip, b) ← Field.take? 4 b
  let (publicSocket, b) ← Field.take? 2 b
  let (privateSocket, b) ← Field.take? 2 b
  some
    ({ ip := .ofNat ip
       publicSocket := UInt16.ofNat publicSocket
       privateSocket := UInt16.ofNat privateSocket }, b)

/-- The entry that a whole datagram holds. -/
def ofDatagram (b : Bytes) : Except Failure Entry :=
  match take? b with
  | some (e, []) => .ok e
  | _ => .error (.malformed .rendezvousEntry)

/-- Where the peer can be reached. -/
def peer (e : Entry) : Endpoint :=
  .v4 e.ip e.privateSocket

end Entry

/-- What is asked of a rendezvous server. -/
inductive Purpose where
  /-- A host announces itself. -/
  | announce
  /-- A caller asks for a host. -/
  | ask
  deriving DecidableEq, Repr, Inhabited

/-- The number of a purpose on the wire. -/
def Purpose.number : Purpose → Nat
  | announce => 0
  | ask => 1

/-- The purpose a number stands for. -/
def Purpose.ofNumber? : Nat → Option Purpose
  | 0 => some announce
  | 1 => some ask
  | _ => none

/-- A request to a rendezvous server. -/
structure Request where
  purpose : Purpose
  entry : Entry
  deriving DecidableEq, Repr, Inhabited

namespace Request

/-- The bytes of a request. -/
def size : Nat := 4 + Entry.size

/-- The announcement of a host. -/
def announce (publicSocket : UInt16) : Request :=
  { purpose := .announce
    entry := { ip := .unspecified, publicSocket, privateSocket := 0 } }

/-- The question for a host. -/
def ask (ip : IPv4) (publicSocket : UInt16) : Request :=
  { purpose := .ask
    entry := { ip, publicSocket, privateSocket := 0 } }

/-- The wire form of a request. -/
def encode (r : Request) : Bytes :=
  Field.digits 4 r.purpose.number ++ r.entry.encode

/-- Reads a request that nothing follows. -/
def decode? (b : Bytes) : Option Request := do
  let (number, b) ← Field.take? 4 b
  let purpose ← Purpose.ofNumber? number
  match ← Entry.take? b with
  | (entry, []) => some { purpose, entry }
  | _ => none

/-- Checks that an entry answers a question: it repeats what was asked for and names a
private socket. -/
def check (r : Request) (answer : Entry) : Except Failure Unit :=
  if answer.ip ≠ r.entry.ip ∨ answer.publicSocket ≠ r.entry.publicSocket then
    .error .rendezvousMismatch
  else if answer.privateSocket = 0 then .error .unknownPeer
  else .ok ()

end Request

end Framecast.Rendezvous
