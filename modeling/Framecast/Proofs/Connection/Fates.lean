/-
What becomes of the packets that are sent, and what is counted of it.

A packet that comes as far as the cipher is offered to the operating system, which takes
its datagram or refuses it to the last.  `fate` says which of the two it is, and looks
only at the network to do so.  `Attempts` is an account between two states of a link: what
went out, and what was counted, when packets met these fates.  Accounts join, so the one
for a single packet gives those for a unit and for whatever else sends packets.
-/
import Framecast.Proofs.Connection.Uses

namespace Framecast

namespace Link

/-- What becomes of a packet that is sent. -/
inductive Fate where
  /-- The operating system took the packet, sealed in this datagram. -/
  | accepted (d : Bytes)
  /-- The operating system refused the sealed packet to the last. -/
  | refused
  /-- The packet was not sealed: the connection is closed, the packet too large, or there
  are no random bytes for the nonce. -/
  | unsealed
  deriving DecidableEq, Repr

namespace Fate

/-- The datagram that was taken. -/
def datagram? : Fate → Option Bytes
  | accepted d => some d
  | _ => none

/-- The datagrams that were taken. -/
def taken (fates : List Fate) : List Bytes :=
  fates.filterMap datagram?

/-- The fate of a datagram that is offered. -/
def ofOffer (d : Bytes) (n : Network) : Fate :=
  match (offer d maxRetries n).1 with
  | .ok () => accepted d
  | .error _ => refused

/-- What the sender of a packet is told. -/
def Tells : Fate → Except Failure Unit → Prop
  | accepted _, r => r = .ok ()
  | refused, r => ∃ errno, r = .error (.system errno)
  | unsealed, r =>
    r = .error .closed ∨ (∃ size, r = .error (.packetTooLarge size Packet.maxSize)) ∨
      r = .error .sealing

theorem taken_append (fates later : List Fate) :
    taken (fates ++ later) = taken fates ++ taken later :=
  List.filterMap_append

end Fate

/-- The fate of a packet. -/
def fate (p : Packet) (l : Link) : Fate :=
  if l.isClosed ∨ Packet.maxSize < p.size then .unsealed else
  match l.network.draw Sealed.nonceSize with
  | (none, _) => .unsealed
  | (some nonce, network) =>
    let d := Sealed.wrap l.connection.key nonce p.encode
    .ofOffer d (pace d.length { l with network }).network

/-- The fates of packets that are kept and sent, one after another. -/
def fates : List Packet → Link → List Fate
  | [], _ => []
  | p :: rest, l => fate p (keep p l) :: fates rest (sendPacket p (keep p l)).2

/-- The fates of the fragments of a unit; one that is refused has none. -/
def unitFates (channel : Channel) (payload : Bytes) (id : Int32) (l : Link) : List Fate :=
  if l.isClosed then [] else
  match checkUnit l.connection.stores channel payload.length with
  | .error _ => []
  | .ok () => fates (fragments channel id payload Packet.maxPayload) l

end Link

/-- The counters after packets met these fates. -/
def Counters.attempted (c : Counters) (fates : List Link.Fate) : Counters :=
  { c with
    packetsSent := c.packetsSent + (Link.Fate.taken fates).length
    bytesSent := c.bytesSent + ((Link.Fate.taken fates).map List.length).sum
    sendFailures := c.sendFailures + fates.count .refused }

theorem Counters.attempted_append (c : Counters) (fates later : List Link.Fate) :
    c.attempted (fates ++ later) = (c.attempted fates).attempted later := by
  unfold attempted
  rw [Link.Fate.taken_append, List.length_append, List.map_append, List.sum_append,
    List.count_append]
  simp only [Nat.add_assoc]

namespace Link

/-- The link came from `l` to `m` while packets met these fates: what was taken is sealed
and went out, what happened is counted, and no arrival was touched. -/
structure Attempts (l : Link) (fates : List Fate) (m : Link) : Prop where
  sends : l.network.Sends (Fate.taken fates) m.network
  seals : ∀ d ∈ Fate.taken fates, ∃ p, Seals l.connection.key p d
  counters_eq : m.connection.counters = l.connection.counters.attempted fates
  key_eq : m.connection.key = l.connection.key
  inbound_eq : m.network.inbound = l.network.inbound

variable {l m k : Link} {p : Packet} {d : Bytes} {before later : List Fate}

namespace Attempts

theorem refl (l : Link) : l.Attempts [] l where
  sends := .refl l.network
  seals := List.forall_mem_nil _
  counters_eq := rfl
  key_eq := rfl
  inbound_eq := rfl

theorem trans (h : l.Attempts before m) (h' : m.Attempts later k) :
    l.Attempts (before ++ later) k where
  sends := by
    rw [Fate.taken_append]
    exact h.sends.trans h'.sends
  seals := by
    intro d hd
    rw [Fate.taken_append, List.mem_append] at hd
    rcases hd with hd | hd
    · exact h.seals d hd
    · rw [← h.key_eq]
      exact h'.seals d hd
  counters_eq := by
    rw [h'.counters_eq, h.counters_eq, Counters.attempted_append]
  key_eq := h'.key_eq.trans h.key_eq
  inbound_eq := h'.inbound_eq.trans h.inbound_eq

/-- Nothing but the network, the counters and the key matters for where an account starts. -/
theorem of_same (h : k.Attempts later m) (hnetwork : k.network = l.network)
    (hcounters : k.connection.counters = l.connection.counters)
    (hkey : k.connection.key = l.connection.key) : l.Attempts later m where
  sends := hnetwork ▸ h.sends
  seals := hkey ▸ h.seals
  counters_eq := hcounters ▸ h.counters_eq
  key_eq := h.key_eq.trans hkey
  inbound_eq := by rw [h.inbound_eq, hnetwork]

end Attempts

/-! ### One packet -/

theorem attempts_pace (bytes : Nat) (l : Link) : l.Attempts [] (pace bytes l) := by
  have honward := onward_pace bytes l
  refine ⟨honward.network, List.forall_mem_nil _, ?_, honward.key_eq, ?_⟩
  · unfold pace
    cases l.connection.bucket <;> rfl
  · unfold pace
    cases l.connection.bucket with
    | none => rfl
    | some bucket => exact Bucket.inbound_waitFor bytes Bucket.maxAttempts bucket l.network

/-- A sealed packet is counted by what became of its offer, and its sender is told. -/
theorem attempts_transmit (hseals : ∃ p, Seals l.connection.key p d) :
    l.Attempts [.ofOffer d l.network] (transmit d l).2 ∧
      (Fate.ofOffer d l.network).Tells (transmit d l).1 := by
  have hinbound := l.network.inbound_offer d maxRetries
  unfold transmit Fate.ofOffer
  rcases l.network.offer_cases d maxRetries with ⟨n, hoffer, hsends⟩ | ⟨errno, n, hoffer, hsends⟩
  · rw [hoffer] at hinbound ⊢
    refine ⟨⟨hsends, fun other hother => ?_, rfl, rfl, hinbound⟩, rfl⟩
    rw [List.mem_singleton.mp hother]
    exact hseals
  · rw [hoffer] at hinbound ⊢
    exact ⟨⟨hsends, List.forall_mem_nil _, rfl, rfl, hinbound⟩,
      errno, rfl⟩

/-- **A packet that is sent is counted by its fate,** and its sender is told. -/
theorem attempts_sendPacket (p : Packet) (l : Link) :
    l.Attempts [fate p l] (sendPacket p l).2 ∧ (fate p l).Tells (sendPacket p l).1 := by
  have hidle : l.Attempts [.unsealed] l :=
    ⟨.refl _, List.forall_mem_nil _, rfl, rfl, rfl⟩
  unfold fate
  by_cases hclosed : l.isClosed = true
  · rw [if_pos (Or.inl hclosed), sendPacket_of_closed p hclosed]
    exact ⟨hidle, Or.inl rfl⟩
  have hopen : l.isClosed = false := by simpa using hclosed
  by_cases hsize : Packet.maxSize < p.size
  · rw [if_pos (Or.inr hsize), sendPacket_of_large hopen hsize]
    exact ⟨hidle, Or.inr (Or.inl ⟨_, rfl⟩)⟩
  have hfits : ¬ (l.isClosed = true ∨ Packet.maxSize < p.size) := by
    rintro (h | h)
    · exact hclosed h
    · exact hsize h
  rw [if_neg hfits, sendPacket_of_open hopen (by omega)]
  rcases l.network.draw_cases Sealed.nonceSize with hdraw | ⟨nonce, random, hdraw, hnonce⟩
  · rw [hdraw]
    exact ⟨hidle, Or.inr (Or.inr rfl)⟩
  · rw [hdraw]
    dsimp only
    generalize hd : Sealed.wrap l.connection.key nonce p.encode = d
    have hdrawn : l.Attempts [] { l with network := { l.network with random } } :=
      ⟨.of_trace_eq rfl, List.forall_mem_nil _, rfl, rfl, rfl⟩
    have hpaced := hdrawn.trans (attempts_pace d.length _)
    have hseals : ∃ p, Seals (pace d.length
        { l with network := { l.network with random } }).connection.key p d := by
      rw [hpaced.key_eq]
      exact ⟨p, nonce, hnonce, hd.symm⟩
    obtain ⟨hsent, htells⟩ := attempts_transmit hseals
    exact ⟨hpaced.trans hsent, htells⟩

/-- The counters have no say in the fate of a packet. -/
theorem fate_count (p : Packet) (l : Link) (f : Counters → Counters) :
    fate p (l.count f) = fate p l := by
  have hpace (bytes : Nat) (network : Network) :
      (pace bytes { l.count f with network }).network =
        (pace bytes { l with network }).network := by
    unfold pace count update
    cases l.connection.bucket <;> rfl
  unfold fate
  simp only [hpace]
  rfl

/-! ### Many packets -/

theorem attempts_sendAll (packets : List Packet) (l : Link) :
    l.Attempts (fates packets l) (sendAll packets l).2 := by
  induction packets generalizing l with
  | nil => exact .refl l
  | cons p rest ih =>
      have hfirst : l.Attempts _ _ := (attempts_sendPacket p (keep p l)).1.of_same rfl rfl rfl
      rw [fates, sendAll]
      cases hsend : sendPacket p (keep p l) with
      | mk r m =>
          rw [hsend] at hfirst
          cases r <;> exact hfirst.trans (ih m)

/-- **A unit is counted by the fates of its fragments.** -/
theorem attempts_sendUnit (channel : Channel) (payload : Bytes) (id : Int32) (l : Link) :
    l.Attempts (unitFates channel payload id l) (sendUnit channel payload id l).2 := by
  unfold unitFates
  by_cases hclosed : l.isClosed = true
  · rw [if_pos hclosed, sendUnit_of_refused (Or.inl hclosed)]
    exact .refl l
  rw [if_neg hclosed]
  cases hcheck : checkUnit l.connection.stores channel payload.length with
  | error e =>
      rw [sendUnit_of_refused (Or.inr ⟨e, hcheck⟩)]
      exact .refl l
  | ok _ =>
      rw [sendUnit_of_checkUnit (by simpa using hclosed) hcheck]
      exact attempts_sendAll _ l

end Link

end Framecast
