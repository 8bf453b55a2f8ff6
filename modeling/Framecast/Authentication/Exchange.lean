/-
Proving to each other that both ends hold the key.

A side sends a challenge, answers every challenge it gets, and is done once it has
answered one and its own was proved.  While the proof is missing, it sends its
challenge again whenever a read timeout passes or the peer was not there yet.

The proof of a finished side may get lost; the peer then goes on sending its
challenge, so a connection answers challenges for as long as it is read from.

Each step either consumes an arrival or waits for a full read timeout, so the
exchange comes to its deadline at the latest.
-/
import Framecast.Action
import Framecast.Authentication.Challenge

namespace Framecast.Authentication

/-- The time between two sendings of a challenge. -/
def resendInterval : Nat := 50 * Time.millisecond

/-- The most bytes read of a datagram. -/
def capacity : Nat := 64

/-- How far one side is. -/
structure Progress where
  /-- It answered the peer. -/
  answered : Bool := false
  /-- The peer proved its challenge. -/
  verified : Bool := false
  deriving DecidableEq, Repr, Inhabited

/-- Whether one side is done. -/
def Progress.isDone (p : Progress) : Bool :=
  p.answered && p.verified

/-- Sends the proof of a nonce. -/
def answer (key : Key) (nonce : Bytes) : Action Network Unit :=
  .ofCall (·.send (proof key nonce))

/-- Goes on after a receive call that brought no datagram. -/
def afterError (nonce : Bytes) (p : Progress) (errno : Errno) : Action Network Progress :=
  if errno.isTimeout ∨ errno = .connectionRefused then
    if p.verified then pure p
    else do
      .ofCall (·.send (challenge nonce))
      pure p
  else if errno = .interrupted then pure p
  else .fail (.system errno)

/-- Goes on after a datagram. -/
def afterDatagram (key : Key) (nonce : Bytes) (p : Progress) (datagram : Bytes) :
    Action Network Progress :=
  match meaning datagram with
  | .challenge theirs => do
    answer key theirs
    pure { p with answered := true }
  | .proof given =>
    if given = code key nonce then pure { p with verified := true } else .fail .proofRejected
  | .noise => pure p

/-- One receive call and what it leads to. -/
def step (key : Key) (nonce : Bytes) (p : Progress) : Action Network Progress := fun n =>
  match n.receive resendInterval capacity with
  | (.error errno, n) => afterError nonce p errno n
  | (.ok (datagram, _), n) => afterDatagram key nonce p datagram n

/-! ### A step comes closer to the end -/

theorem remaining_ofCall_send (n : Network) (datagram : Bytes) (deadline : Int) :
    (Action.ofCall (·.send datagram) n).2.remaining deadline = n.remaining deadline := by
  unfold Action.ofCall
  have h := n.remaining_attempt (.sent datagram) deadline
  simp only [Network.send]
  split <;> simp_all

theorem remaining_afterError (nonce : Bytes) (p : Progress) (errno : Errno) (n : Network)
    (deadline : Int) :
    (afterError nonce p errno n).2.remaining deadline = n.remaining deadline := by
  have h := remaining_ofCall_send n (challenge nonce) deadline
  unfold afterError
  split
  · split
    · rfl
    · rw [Action.bind_apply]
      split <;> simp_all [Action.pure_apply]
  · split <;> rfl

theorem remaining_afterDatagram (key : Key) (nonce : Bytes) (p : Progress) (datagram : Bytes)
    (n : Network) (deadline : Int) :
    (afterDatagram key nonce p datagram n).2.remaining deadline = n.remaining deadline := by
  unfold afterDatagram
  cases meaning datagram with
  | challenge theirs =>
    have h := remaining_ofCall_send n (proof key theirs) deadline
    simp only [Action.bind_apply, answer]
    split <;> simp_all [Action.pure_apply]
  | proof given => dsimp only; split <;> rfl
  | noise => rfl

theorem remaining_step_lt (key : Key) (nonce : Bytes) (p : Progress) (n : Network)
    (deadline : Int) (h : n.now < deadline) :
    (step key nonce p n).2.remaining deadline < n.remaining deadline := by
  have hr := n.remaining_receive_lt resendInterval capacity deadline (by decide) h
  unfold step
  split
  · next hn => rw [hn] at hr; rwa [remaining_afterError]
  · next hn => rw [hn] at hr; rwa [remaining_afterDatagram]

/-- Reads and answers until this side is done or the deadline has come. -/
def exchange (key : Key) (nonce : Bytes) (deadline : Int) (p : Progress) (n : Network) :
    Except Failure Unit × Network :=
  if p.isDone then (.ok (), n)
  else if _h : deadline ≤ n.now then (.error .handshakeTimeout, n)
  else
    match _hs : step key nonce p n with
    | (.error e, m) => (.error e, m)
    | (.ok q, m) => exchange key nonce deadline q m
termination_by n.remaining deadline
decreasing_by
  have := remaining_step_lt key nonce p n deadline (by omega)
  rwa [_hs] at this

/-- The whole handshake of one side on a connected socket. -/
def run (key : Key) (timeout : Nat) : Action Network Unit := do
  .ofCheck Network.setReadTimeout
  let nonce ← Network.drawBytes nonceSize
  .ofCall (·.send (challenge nonce))
  let deadline ← .read fun n => n.now + (timeout : Int)
  exchange key nonce deadline {}

/-- Answers a datagram if it is a challenge.  Returns whether it was one. -/
def answerLate (key : Key) (datagram : Bytes) : Action Network Bool :=
  match meaning datagram with
  | .challenge nonce => do
    answer key nonce
    pure true
  | _ => pure false

end Framecast.Authentication
