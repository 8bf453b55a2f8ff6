/-
Configurations as people write them, and what they come to.

Almost everything may be left out.  The checks come in a fixed order and the first
that fails decides: the version, the key, the socket number, the address of the host,
the rendezvous server, and then the stores one by one.  Spans are in milliseconds and
at least one, but for the interval between requests.
-/
import Framecast.Configuration.Basic
import Framecast.Packet.Basic

namespace Framecast

namespace Configuration

/-- How to find the peer, as written. -/
structure MeetingInput where
  socket : Option UInt16 := none
  host : Option String := none
  rendezvous : Option String := none
  readTimeout : Option Nat := none
  setupTimeout : Option Nat := none
  rendezvousTimeout : Option Nat := none
  key : Option String := none
  deriving DecidableEq, Repr, Inhabited

/-- How to receive, as written. -/
structure ReceptionInput where
  ringSize : Option Nat := none
  queueCapacity : Option Nat := none
  requestInterval : Option Nat := none
  period : Option Nat := none
  adapts : Option Bool := none
  policy : Option Policy := none
  deriving DecidableEq, Repr, Inhabited

/-- A configuration as written. -/
structure Input where
  /-- Zero stands for the current version. -/
  version : Nat := 0
  meeting : MeetingInput := {}
  retention : Option (List Retention) := none
  reception : ReceptionInput := {}
  deriving DecidableEq, Repr, Inhabited

/-- The nanoseconds of a number of milliseconds. -/
def milliseconds (ms : Nat) : Nat := ms * Time.millisecond

/-- The nanoseconds of a number of milliseconds that is at least one. -/
def someMilliseconds (ms : Nat) : Nat := milliseconds (max ms 1)

/-- Checks the version and returns the one that is meant. -/
def checkVersion (version : Nat) : Except ConfigFault Nat :=
  let version := if version = 0 then currentVersion else version
  if version = currentVersion then .ok version else .error (.unsupportedVersion version)

/-- The key that is written. -/
def checkKey : Option String → Except Failure Key
  | none => .error (.configuration .keyMissing)
  | some text => Key.parse text

/-- The socket number that is written, or the default. -/
def checkSocket : Option UInt16 → Except ConfigFault UInt16
  | none => .ok defaultSocket
  | some 0 => .error .socketZero
  | some socket => .ok socket

/-- Reads a text that may be missing or blank. -/
def checkText {α : Type} (read : List Char → Option α) (fault : String → ConfigFault) :
    Option String → Except ConfigFault (Option α)
  | none => .ok none
  | some text =>
    let trimmed := Text.trim text.toList
    if trimmed.isEmpty then .ok none
    else
      match read trimmed with
      | some a => .ok (some a)
      | none => .error (fault (String.ofList trimmed))

/-- An IPv4 address is never longer than fifteen characters. -/
def readHost (text : List Char) : Option IPv4 :=
  if text.length > 15 then none else IPv4.parse? text

/-- Checks the stores from some place on; `seen` are the channels before it. -/
def checkStores (seen : List Channel) : List Retention → Except ConfigFault Unit
  | [] => .ok ()
  | r :: rest =>
    if r.channel ∈ seen then .error (.duplicateBuffer r.channel)
    else if r.units = 0 then .error .noBuffers
    else if r.channel = .message ∧ r.maxUnit > Packet.maxPayload then
      .error .messageBufferTooLarge
    else checkStores (r.channel :: seen) rest

/-- The stores that are written, or the defaults. -/
def checkRetention : Option (List Retention) → Except ConfigFault (List Retention)
  | none => .ok Retention.defaults
  | some list => (checkStores [] list).map fun _ => list

/-- Turns a fault into a failure. -/
def orFail {α : Type} (r : Except ConfigFault α) : Except Failure α :=
  r.mapError .configuration

/-- What the reception section comes to.  Nothing in it can be wrong. -/
def ReceptionInput.resolve (r : ReceptionInput) : Reception :=
  let defaults : Reception := {}
  { ringSize := max (r.ringSize.getD defaults.ringSize) 1
    queueCapacity := max (r.queueCapacity.getD defaults.queueCapacity) 1
    requestInterval := (r.requestInterval.map milliseconds).getD defaults.requestInterval
    period := (r.period.map someMilliseconds).getD defaults.period
    adapts := r.adapts.getD defaults.adapts
    policy := r.policy.getD defaults.policy }

/-- What a configuration comes to. -/
def Input.resolve (input : Input) : Except Failure Configuration := do
  let m := input.meeting
  let version ← orFail (checkVersion input.version)
  let key ← checkKey m.key
  let socket ← orFail (checkSocket m.socket)
  let host ← orFail (checkText readHost .badDestination m.host)
  let rendezvous ← orFail (checkText Endpoint.parse? .badRendezvous m.rendezvous)
  let retention ← orFail (checkRetention input.retention)
  let defaults : Meeting := { key }
  pure
    { version
      meeting :=
        { key
          socket
          host
          rendezvous
          readTimeout := (m.readTimeout.map someMilliseconds).getD defaults.readTimeout
          setupTimeout := (m.setupTimeout.map someMilliseconds).getD defaults.setupTimeout
          rendezvousTimeout :=
            (m.rendezvousTimeout.map someMilliseconds).getD defaults.rendezvousTimeout }
      retention
      reception := input.reception.resolve }

end Configuration

end Framecast
