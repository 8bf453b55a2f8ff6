/-
What a peer with the same key reads.

A sealed packet is longer than a challenge and never longer than what is read of a
datagram, so nothing on the way to the cipher takes it for something else or cuts it.
The cipher opens it and the reader accepts it, and the read returns the packet that was
sealed.  When packets are given back as they are read, the peer reads one after the
other whatever arrives.
-/
import Mathlib.Data.List.Forall2
import Framecast.Connection.Receive
import Framecast.Proofs.Authentication.Steps
import Framecast.Proofs.Cipher.Sealed
import Framecast.Proofs.Connection.Sending
import Framecast.Proofs.Packet.Encoding

namespace Framecast.Link

open Authentication (Arrives meaning)

/-! ### A sealed packet on the wire -/

section Sealed

variable {key : Key} {p : Packet} {d : Bytes}

theorem length_of_seals (h : Seals key p d) : d.length = p.size + Sealed.overhead := by
  obtain ⟨nonce, hnonce, rfl⟩ := h
  rw [Sealed.length_wrap key hnonce, Packet.length_encode]

/-- A sealed packet that fits is read whole. -/
theorem length_le_of_seals (h : Seals key p d) (hsize : p.size ≤ Packet.maxSize) :
    d.length ≤ Sealed.maxSize := by
  rw [length_of_seals h]
  exact Nat.add_le_add_right hsize Sealed.overhead

/-- A sealed packet is no challenge. -/
theorem meaning_ne_challenge_of_seals (h : Seals key p d) (nonce : Bytes) :
    meaning d ≠ .challenge nonce := by
  intro hmeans
  obtain ⟨hd, hnonce⟩ := Authentication.meaning_eq_challenge.mp hmeans
  have hlength := length_of_seals h
  have hheader : Packet.headerSize = 14 := rfl
  have hoverhead : Sealed.overhead = 28 := rfl
  have hsize : Authentication.nonceSize = 16 := rfl
  rw [hd, Authentication.challenge, List.length_cons, hnonce, Packet.size] at hlength
  omega

theorem open_of_seals (h : Seals key p d) (hvalid : p.Valid) :
    (Sealed.unwrap? key d).bind Packet.decode? = some p := by
  obtain ⟨nonce, hnonce, rfl⟩ := h
  rw [Sealed.unwrap?_wrap key hnonce, Option.bind_some, Packet.decode?_encode hvalid]

end Sealed

/-! ### What a read leaves alone -/

section Leaves

variable {γ : Type} {view : Link → γ}

/-- A read changes the network and the counters, and nothing else. -/
theorem leaves_receiveOne_of (hnetwork : ∀ (l : Link) network, view { l with network } = view l)
    (hcount : ∀ (l : Link) f, view (l.count f) = view l) : receiveOne.Leaves view := by
  have haccept (d : Bytes) : (accept d).Leaves view := by
    intro l
    unfold accept
    split
    · exact hcount l fun c => { c with rejected := c.rejected + 1 }
    · exact hcount l fun c =>
        { c with
          packetsReceived := c.packetsReceived + 1
          bytesReceived := c.bytesReceived + d.length }
  have hdatagram (d : Bytes) : (afterDatagram d).Leaves view := by
    unfold afterDatagram
    split
    · exact fun _ => rfl
    · refine Action.Leaves.bind (fun _ => rfl) fun key => ?_
      refine Action.Leaves.bind (fun l => hnetwork l _) fun late => ?_
      split
      · exact fun _ => rfl
      · exact haccept d
  have herror (errno : Errno) : (afterError errno).Leaves view := by
    intro l
    unfold afterError
    split
    · exact hcount l fun c => { c with readTimeouts := c.readTimeouts + 1 }
    · split <;> rfl
  intro l
  unfold receiveOne
  split
  · exact (herror _ _).trans (hnetwork l _)
  · exact (hdatagram _ _).trans (hnetwork l _)

theorem key_receiveOne (l : Link) : (receiveOne l).2.connection.key = l.connection.key := by
  have hleaves : receiveOne.Leaves fun l => l.connection.key :=
    leaves_receiveOne_of (fun _ _ => rfl) fun _ _ => rfl
  exact hleaves l

end Leaves

/-- **All that a read does to the network is to answer a challenge.** -/
theorem network_receiveOne (l : Link) :
    (receiveOne l).2.network =
      match l.network.receive l.connection.readTimeout Sealed.maxSize with
      | (.error _, n) => n
      | (.ok (d, _), n) => (Authentication.answerLate l.connection.key d n).2 := by
  unfold receiveOne
  cases l.network.receive l.connection.readTimeout Sealed.maxSize with
  | mk r n =>
      cases r with
      | error errno =>
          dsimp only
          unfold afterError
          split
          · rfl
          · split <;> rfl
      | ok arrival =>
          obtain ⟨d, sender⟩ := arrival
          dsimp only
          unfold afterDatagram
          by_cases hempty : d.isEmpty = true
          · rw [if_pos hempty, List.isEmpty_iff.mp hempty]
            rfl
          have hread : Action.read (fun l : Link => l.connection.key) { l with network := n } =
              (.ok l.connection.key, { l with network := n }) := rfl
          rw [if_neg hempty, Action.bind_of_ok hread, Action.bind_apply]
          unfold onNetwork
          cases Authentication.answerLate l.connection.key d n with
          | mk late m =>
              cases late with
              | error why => rfl
              | ok isLate =>
                  cases isLate with
                  | true => rfl
                  | false =>
                      show (accept d _).2.network = m
                      unfold accept
                      split <;> rfl

/-- Answering a late challenge fails only if the answer cannot be sent. -/
theorem system_of_answerLate {key : Key} {d : Bytes} {n : Network} {e : Failure}
    (h : (Authentication.answerLate key d n).1 = .error e) : ∃ errno, e = .system errno := by
  unfold Authentication.answerLate at h
  cases hmeans : meaning d with
  | challenge nonce =>
      rw [hmeans] at h
      rcases Action.bind_eq_error (Prod.ext h rfl) with h | ⟨_, _, _, h⟩
      · unfold Authentication.answer Action.ofCall at h
        split at h
        · cases h
        · cases h
          exact ⟨_, rfl⟩
      · cases h
  | proof code =>
      rw [hmeans] at h
      cases h
  | noise =>
      rw [hmeans] at h
      cases h

/-- A read fails only as the operating system does. -/
theorem system_of_receiveOne {l m : Link} {e : Failure} (h : receiveOne l = (.error e, m)) :
    ∃ errno, e = .system errno := by
  unfold receiveOne at h
  split at h
  · unfold afterError at h
    split at h
    · cases h
    · split at h
      · cases h
      · cases h
        exact ⟨_, rfl⟩
  · unfold afterDatagram at h
    split at h
    · cases h
    · rcases Action.bind_eq_error h with h | ⟨key, k, -, h⟩
      · cases h
      rcases Action.bind_eq_error h with h | ⟨late, k', -, h⟩
      · have hanswer : (Authentication.answerLate key _ k.network).1 = .error e :=
          congrArg Prod.fst h
        exact system_of_answerLate hanswer
      · split at h
        · cases h
        · unfold accept at h
          split at h <;> cases h

/-! ### One read -/

section Read

variable {l : Link}

theorem readPacket_of_closed (h : l.isClosed = true) : readPacket l = (.error .closed, l) := by
  unfold readPacket
  exact Action.bind_of_error (ensureOpen_of_closed h)

theorem readPacket_of_leased (hopen : l.isClosed = false) (hleased : l.connection.leased = true) :
    readPacket l = (.error .leaseOut, l) := by
  have hread : Action.read (fun l : Link => l.connection.leased) l = (.ok true, l) := by
    rw [Action.read, hleased]
  unfold readPacket
  rw [Action.bind_of_ok (ensureOpen_of_open hopen), Action.bind_of_ok hread, if_pos rfl]
  rfl

/-- On an open connection without a lease, a read looks at the network, and a packet is on
lease from then on. -/
theorem readPacket_of_free (hopen : l.isClosed = false) (hfree : l.connection.leased = false) :
    readPacket l =
      match receiveOne l with
      | (.ok p, m) => (.ok p, m.update fun c => { c with leased := p.isSome })
      | (.error e, m) => (.error e, m) := by
  have hread : Action.read (fun l : Link => l.connection.leased) l = (.ok false, l) := by
    rw [Action.read, hfree]
  unfold readPacket
  rw [Action.bind_of_ok (ensureOpen_of_open hopen), Action.bind_of_ok hread,
    if_neg Bool.false_ne_true, Action.bind_apply]
  cases receiveOne l with
  | mk r m => cases r <;> rfl

end Read

/-- The end of a connection that can read what is sealed under the key. -/
structure Listens (l : Link) (key : Key) : Prop where
  isOpen : l.isClosed = false
  free : l.connection.leased = false
  key_eq : l.connection.key = key

variable {l : Link} {key : Key} {p : Packet} {d : Bytes}

theorem size_le_of_valid (h : p.Valid) : p.size ≤ Packet.maxSize :=
  Nat.add_le_add_left h.2 Packet.headerSize

/-- A datagram that is neither empty nor a challenge goes to the cipher. -/
theorem afterDatagram_of_other (hlong : d.isEmpty = false)
    (hother : ∀ nonce, meaning d ≠ .challenge nonce) : afterDatagram d l = accept d l := by
  have hread : Action.read (fun l : Link => l.connection.key) l = (.ok l.connection.key, l) := rfl
  have hlate : onNetwork (Authentication.answerLate l.connection.key d) l = (.ok false, l) := by
    unfold onNetwork Authentication.answerLate
    cases hmeans : meaning d with
    | challenge nonce => exact absurd hmeans (hother nonce)
    | proof code => rfl
    | noise => rfl
  unfold afterDatagram
  rw [hlong, if_neg Bool.false_ne_true, Action.bind_of_ok hread, Action.bind_of_ok hlate,
    if_neg Bool.false_ne_true]

/-- A sealed packet is accepted as the packet it is. -/
theorem afterDatagram_of_seals (hseals : Seals l.connection.key p d) (hvalid : p.Valid) :
    ∃ counters, afterDatagram d l = (.ok (some p), l.count fun _ => counters) := by
  have hlong : d.isEmpty = false := by
    have hlength := length_of_seals hseals
    have hoverhead : Sealed.overhead = 28 := rfl
    rw [List.isEmpty_eq_false_iff]
    intro hnil
    rw [hnil, List.length_nil] at hlength
    omega
  rw [afterDatagram_of_other hlong (meaning_ne_challenge_of_seals hseals), accept,
    open_of_seals hseals hvalid]
  exact ⟨_, rfl⟩

/-- **A sealed packet that arrives is read.**  It is on lease then, and the next arrival
comes next. -/
theorem readPacket_of_seals (hlistens : l.Listens key) (hseals : Seals key p d)
    (hvalid : p.Valid) {sender : Endpoint} {delay : Nat} {later : List Event}
    (harrives : l.network.inbound = ⟨.datagram d sender, delay⟩ :: later) :
    ∃ m, readPacket l = (.ok (some p), m) ∧ m.release.Listens key ∧ m.network.inbound = later := by
  have hwhole : d.take Sealed.maxSize = d :=
    List.take_of_length_le (length_le_of_seals hseals (size_le_of_valid hvalid))
  have hreceive : l.network.receive l.connection.readTimeout Sealed.maxSize =
      (.ok (d, sender), l.network.returned later delay) := by
    unfold Network.receive
    rw [harrives]
    dsimp only
    rw [hwhole]
  have hkey : Seals ({ l with network := l.network.returned later delay } : Link).connection.key
      p d := by
    rw [← hlistens.key_eq] at hseals
    exact hseals
  obtain ⟨counters, hafter⟩ := afterDatagram_of_seals hkey hvalid
  have hone : receiveOne l = (.ok (some p),
      ({ l with network := l.network.returned later delay } : Link).count fun _ => counters) := by
    unfold receiveOne
    rw [hreceive]
    exact hafter
  refine ⟨(({ l with network := l.network.returned later delay } : Link).count
    fun _ => counters).update fun c => { c with leased := true }, ?_, ?_, rfl⟩
  · rw [readPacket_of_free hlistens.isOpen hlistens.free, hone]
    rfl
  · exact ⟨hlistens.isOpen, rfl, hlistens.key_eq⟩

/-! ### Many reads -/

/-- Reads a number of times and gives back at once what was read. -/
def readAll : (reads : Nat) → Link → List Packet
  | 0, _ => []
  | reads + 1, l =>
    match readPacket l with
    | (.ok (some p), l) => p :: readAll reads l.release
    | (_, l) => readAll reads l

/-- The arrivals bring these datagrams, from wherever and after whatever time. -/
def Brings (events : List Event) (datagrams : List Bytes) : Prop :=
  List.Forall₂ (fun event d => ∃ sender, event.arrival = .datagram d sender) events datagrams

/-- **Sealed packets are read in the order they arrive.** -/
theorem readAll_of_seals {events later : List Event} {datagrams : List Bytes}
    {packets : List Packet} (hlistens : l.Listens key) (hbrings : Brings events datagrams)
    (hseals : List.Forall₂ (Seals key) packets datagrams) (hvalid : ∀ p ∈ packets, p.Valid)
    (harrives : l.network.inbound = events ++ later) :
    readAll packets.length l = packets := by
  induction hseals generalizing l events with
  | nil => rfl
  | @cons p d rest others hseal hrest ih =>
      obtain ⟨event, events, ⟨sender, hevent⟩, htail, rfl⟩ :=
        List.forall₂_cons_right_iff.mp hbrings
      obtain ⟨arrival, delay⟩ := event
      dsimp only at hevent
      rw [hevent] at harrives
      obtain ⟨m, hread, hm, hinbound⟩ := readPacket_of_seals hlistens hseal
        (hvalid p (List.mem_cons_self ..)) harrives
      rw [List.length_cons, readAll, hread]
      dsimp only
      rw [ih hm htail (fun q hq => hvalid q (List.mem_cons_of_mem p hq)) hinbound]

end Framecast.Link
