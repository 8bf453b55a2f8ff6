/-
Setting a connection up.

Directly, a host waits for an empty datagram and connects to whoever sent it, and a
viewer sends one.  Through a rendezvous server, both ends are told where the other
is.  Either way the connection stands once the handshake is done.
-/
import Framecast.Configuration.Basic
import Framecast.Connection.Basic
import Framecast.Authentication.Exchange
import Framecast.Rendezvous.Pairing

namespace Framecast.Connection

/-- Opens a socket bound to an endpoint. -/
def openSocket (endpoint : Endpoint) : Action Network Unit := do
  .ofCheck Network.openSocket
  .ofCall (·.bind endpoint)

/-- Waits for an empty datagram; others are passed over. -/
def awaitCaller (timeout : Nat) (deadline : Int) (n : Network) :
    Except Failure Endpoint × Network :=
  if deadline ≤ n.now then (.error .noCaller, n)
  else
    match _h : n.inbound with
    | [] =>
      -- silence up to the timeout, as every later call would bring
      (.error .noCaller, (n.receive timeout Sealed.maxSize).2)
    | _ :: _ =>
      match _hr : n.receive timeout Sealed.maxSize with
      | (.ok (datagram, sender), m) =>
        if datagram.isEmpty then (.ok sender, m) else awaitCaller timeout deadline m
      | (.error errno, m) =>
        if errno.isTimeout then (.error .noCaller, m) else (.error (.system errno), m)
termination_by n.inbound.length
decreasing_by
  have := n.inbound_receive timeout Sealed.maxSize
  simp_all

/-- The connection that stands after the handshake. -/
def established (role : Role) (peer : Endpoint) (meeting : Configuration.Meeting) (now : Int) :
    Connection :=
  { role
    peer
    key := meeting.key
    readTimeout := meeting.readTimeout
    bucket :=
      match role with
      | .server => some (.full Settings.startBurst now)
      | .client => none }

/-- Runs the handshake and makes the connection. -/
def finish (role : Role) (peer : Endpoint) (meeting : Configuration.Meeting) :
    Action Network Connection := do
  Authentication.run meeting.key meeting.setupTimeout
  .ofCheck Network.setReadTimeout
  .read fun n => established role peer meeting n.now

/-- Waits for a viewer on a socket of its own. -/
def accept (listen : Endpoint) (meeting : Configuration.Meeting) : Action Network Connection := do
  openSocket listen
  .ofCheck Network.setReadTimeout
  let deadline ← .read fun n => n.now + (meeting.setupTimeout : Int)
  let peer ← awaitCaller meeting.setupTimeout deadline
  .ofCall (·.connect peer)
  finish .server peer meeting

/-- Calls a host. -/
def connect (host : Endpoint) (meeting : Configuration.Meeting) : Action Network Connection := do
  openSocket host.anyLike
  .ofCall (·.connect host)
  .ofCall (·.send [])
  finish .client host meeting

/-- Meets the peer through a rendezvous server. -/
def meet (role : Role) (plan : Rendezvous.Plan) (meeting : Configuration.Meeting) :
    Action Network Connection := do
  openSocket (.v4 .unspecified 0)
  .ofCheck Network.setReadTimeout
  let entry ← plan.meet meeting.rendezvousTimeout
  Rendezvous.reach entry.peer
  finish role entry.peer meeting

/-- Waits for a viewer that a rendezvous server sends. -/
def acceptThrough (server : Endpoint) (publicSocket : UInt16) (meeting : Configuration.Meeting) :
    Action Network Connection :=
  meet .server (.host server publicSocket) meeting

/-- Calls a host that a rendezvous server knows. -/
def connectThrough (server : Endpoint) (ip : IPv4) (publicSocket : UInt16)
    (meeting : Configuration.Meeting) : Action Network Connection :=
  meet .client (.caller server ip publicSocket) meeting

/-- Sets a connection up as configured. -/
def establish (role : Role) (meeting : Configuration.Meeting) : Action Network Connection :=
  match role, meeting.rendezvous, meeting.host with
  | .server, some server, _ => acceptThrough server meeting.socket meeting
  | .server, none, _ => accept (.v4 .unspecified meeting.socket) meeting
  | .client, _, none => .fail (.configuration .destinationMissing)
  | .client, some server, some ip => connectThrough server ip meeting.socket meeting
  | .client, none, some ip => connect (.v4 ip meeting.socket) meeting

end Framecast.Connection
