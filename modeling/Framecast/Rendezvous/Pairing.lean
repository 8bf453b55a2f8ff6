/-
Meeting a peer through a rendezvous server.

A request is sent once and then again after every arrival that is not the answer,
silence included, until the answer comes or the deadline has passed.  Only datagrams
from the server itself are looked at.  A host takes any entry it is sent as its
caller; a caller checks that the answer is about the host it asked for.

Then both ends send an empty datagram to each other, so that the routers on the
way let the other's datagrams pass, and wait a little for the other to have done so.
-/
import Framecast.Action
import Framecast.Rendezvous.Entry

namespace Framecast.Rendezvous

/-- The longest wait before a request is sent again. -/
def resendInterval : Nat := 100 * Time.millisecond

/-- How long an end waits for the other after its empty datagram. -/
def settleTime : Nat := 150 * Time.millisecond

/-- The most bytes read of a datagram. -/
def capacity : Nat := 64

/-- How one end meets the other. -/
structure Plan where
  /-- The rendezvous server. -/
  server : Endpoint
  /-- What is sent to it. -/
  request : Request
  /-- Which of its datagrams are taken for the answer. -/
  admits : Bytes → Bool
  /-- What the answer must satisfy. -/
  check : Entry → Except Failure Unit

/-- The plan of a host that announces itself. -/
def Plan.host (server : Endpoint) (publicSocket : UInt16) : Plan :=
  { server
    request := .announce publicSocket
    admits := fun b => b.length = Entry.size
    check := fun e => if e.privateSocket = 0 then .error .unknownPeer else .ok () }

/-- The plan of a caller that asks for a host. -/
def Plan.caller (server : Endpoint) (ip : IPv4) (publicSocket : UInt16) : Plan :=
  { server
    request := .ask ip publicSocket
    admits := fun _ => true
    check := (Request.ask ip publicSocket).check }

/-- What the outcome of a receive call means: the end of the wait, or nothing. -/
def Plan.judge (plan : Plan) : Except Errno (Bytes × Endpoint) → Option (Except Failure Entry)
  | .ok (datagram, sender) =>
    if sender = plan.server ∧ plan.admits datagram then some (Entry.ofDatagram datagram) else none
  | .error errno =>
    if errno.isTimeout ∨ errno = .connectionRefused then none else some (.error (.system errno))

/-- Waits for the answer to a request that was sent. -/
def Plan.await (plan : Plan) (deadline : Int) (n : Network) : Except Failure Entry × Network :=
  match _hr : n.receive resendInterval capacity with
  | (outcome, m) =>
    match plan.judge outcome with
    | some result => (result, m)
    | none =>
      if _h : deadline ≤ m.now then (.error .rendezvousTimeout, m)
      else
        match _hs : m.sendTo plan.server plan.request.encode with
        | (.error errno, k) => (.error (.system errno), k)
        | (.ok (), k) => plan.await deadline k
termination_by n.remaining deadline
decreasing_by
  have hnow := n.now_le_receive resendInterval capacity
  simp only [_hr] at hnow
  have hlt := n.remaining_receive_lt resendInterval capacity deadline (by decide) (by omega)
  have hsend := m.remaining_attempt (.sentTo plan.server plan.request.encode) deadline
  simp only [_hr] at hlt
  simp only [Network.sendTo] at _hs
  simp only [_hs] at hsend
  omega

/-- Sends the request, waits for the answer and checks it. -/
def Plan.meet (plan : Plan) (timeout : Nat) : Action Network Entry := do
  let deadline ← .read fun n => n.now + (timeout : Int)
  .ofCall (·.sendTo plan.server plan.request.encode)
  let entry ← plan.await deadline
  .ofExcept (plan.check entry)
  pure entry

/-- Sends an empty datagram to the connected peer, who need not be there yet. -/
def greet : Action Network Unit := fun n =>
  match n.send [] with
  | (.error errno, n) =>
    if errno = .connectionRefused then (.ok (), n) else (.error (.system errno), n)
  | (.ok (), n) => (.ok (), n)

/-- Connects to a peer and lets its datagrams through. -/
def reach (peer : Endpoint) : Action Network Unit := do
  .ofCall (·.connect peer)
  greet
  .change (·.sleep settleTime)

end Framecast.Rendezvous
