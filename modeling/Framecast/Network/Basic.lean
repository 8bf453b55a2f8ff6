/-
A network as one program sees it.

Its state is the rest of the script, the clock and the trace so far.  The clock moves
only while a receive call waits and while the program sleeps, and never back.  Once
the script has no more arrivals there is nothing but silence.
-/
import Framecast.Network.Script

namespace Framecast

/-- The state of a scripted network. -/
structure Network where
  now : Int := 0
  /-- The arrivals to come. -/
  inbound : List Event := []
  /-- The fates of the sends to come; sends after these are accepted. -/
  outbound : List (Option Errno) := []
  faults : Faults := {}
  random : RandomSource := default
  /-- What was done, and when. -/
  trace : Array (Int × Effect) := #[]
  /-- How many receive calls were made. -/
  receives : Nat := 0
  deriving Inhabited

namespace Network

/-- Notes an effect. -/
def note (n : Network) (effect : Effect) : Network :=
  { n with trace := n.trace.push (n.now, effect) }

/-- Lets time pass. -/
def pass (n : Network) (span : Nat) : Network :=
  { n with now := n.now + (span : Int) }

/-- How much longer than asked for a sleep lasts. -/
def oversleep : Nat := 1000

/-- Sleeps; to sleep for no time is to do nothing. -/
def sleep (n : Network) (span : Nat) : Network :=
  if span = 0 then n else (n.note (.slept span)).pass (span + oversleep)

/-- A receive call returns after some time; `later` are the arrivals still to come. -/
def returned (n : Network) (later : List Event) (span : Nat) : Network :=
  { n with inbound := later, receives := n.receives + 1, now := n.now + (span : Int) }

/-- Receives a datagram, cut to `capacity` bytes, waiting at most `timeout`. -/
def receive (n : Network) (timeout capacity : Nat) : Except Errno (Bytes × Endpoint) × Network :=
  match n.inbound with
  | [] => (.error .again, n.returned [] timeout)
  | ⟨.datagram bytes sender, delay⟩ :: later =>
    (.ok (bytes.take capacity, sender), n.returned later delay)
  | ⟨.failure errno, delay⟩ :: later => (.error errno, n.returned later delay)
  | ⟨.silence, _⟩ :: later => (.error .again, n.returned later timeout)

/-- Makes a send call that has the given effect if it is accepted. -/
def attempt (n : Network) (effect : Effect) : Except Errno Unit × Network :=
  match n.outbound with
  | [] => (.ok (), n.note effect)
  | none :: later => (.ok (), { n with outbound := later }.note effect)
  | some errno :: later => (.error errno, { n with outbound := later }.note (.refused errno))

/-- Sends a datagram to the connected peer. -/
def send (n : Network) (datagram : Bytes) : Except Errno Unit × Network :=
  n.attempt (.sent datagram)

/-- Sends a datagram to some endpoint. -/
def sendTo (n : Network) (destination : Endpoint) (datagram : Bytes) :
    Except Errno Unit × Network :=
  n.attempt (.sentTo destination datagram)

/-- Makes a call that leaves a mark only when it succeeds. -/
def call (n : Network) (fault : Option Errno) (effect : Effect) : Except Errno Unit × Network :=
  match fault with
  | some errno => (.error errno, n)
  | none => (.ok (), n.note effect)

/-- Opens a socket. -/
def openSocket (n : Network) : Except Errno Unit :=
  n.faults.openSocket.elim (.ok ()) .error

/-- Binds a socket. -/
def bind (n : Network) (endpoint : Endpoint) : Except Errno Unit × Network :=
  n.call n.faults.bind (.bound endpoint)

/-- Connects a socket. -/
def connect (n : Network) (endpoint : Endpoint) : Except Errno Unit × Network :=
  n.call n.faults.connect (.connected endpoint)

/-- Sets the read timeout of a socket. -/
def setReadTimeout (n : Network) : Except Errno Unit :=
  n.faults.setReadTimeout.elim (.ok ()) .error

/-- Draws random bytes. -/
def draw (n : Network) (size : Nat) : Option Bytes × Network :=
  match n.random.draw? size with
  | none => (none, n)
  | some (bytes, random) => (some bytes, { n with random })

/-- The endpoint that every socket is bound to in the end. -/
def localEndpoint : Endpoint := .v4 .loopback 40000

/-! ### A receive call comes closer to the end of the script or to a deadline -/

/-- What is left of the script and of the time up to a deadline. -/
def remaining (n : Network) (deadline : Int) : Nat :=
  n.inbound.length + (deadline - n.now).toNat

theorem inbound_receive (n : Network) (timeout capacity : Nat) :
    (n.receive timeout capacity).2.inbound = n.inbound.tail := by
  unfold receive
  split <;> simp_all [returned]

theorem now_le_receive (n : Network) (timeout capacity : Nat) :
    n.now ≤ (n.receive timeout capacity).2.now := by
  unfold receive
  split <;> exact Int.le_add_of_nonneg_right (Int.natCast_nonneg _)

theorem now_receive_nil (n : Network) (timeout capacity : Nat) (h : n.inbound = []) :
    (n.receive timeout capacity).2.now = n.now + (timeout : Int) := by
  simp [receive, returned, h]

/-- Before the deadline, a receive call that waits for some time brings the end
closer. -/
theorem remaining_receive_lt (n : Network) (timeout capacity : Nat) (deadline : Int)
    (ht : 0 < timeout) (hd : n.now < deadline) :
    (n.receive timeout capacity).2.remaining deadline < n.remaining deadline := by
  have hnow := now_le_receive n timeout capacity
  unfold remaining
  rw [inbound_receive]
  cases h : n.inbound with
  | nil =>
    have hpass := now_receive_nil n timeout capacity h
    simp only [List.tail_nil, List.length_nil]
    omega
  | cons e later =>
    simp only [List.tail_cons, List.length_cons]
    omega

theorem inbound_attempt (n : Network) (e : Effect) : (n.attempt e).2.inbound = n.inbound := by
  unfold attempt
  split <;> rfl

theorem now_attempt (n : Network) (e : Effect) : (n.attempt e).2.now = n.now := by
  unfold attempt
  split <;> rfl

/-- A send call takes no time and leaves the arrivals alone. -/
theorem remaining_attempt (n : Network) (e : Effect) (deadline : Int) :
    (n.attempt e).2.remaining deadline = n.remaining deadline := by
  simp [remaining, inbound_attempt, now_attempt]

end Network

end Framecast
