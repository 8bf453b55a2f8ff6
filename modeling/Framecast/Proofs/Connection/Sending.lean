/-
What one send of a packet does.

On an open connection, a packet that is not too large is sealed, paced and offered.
`Onward` says what this leaves alone: of the connection only the pacer and the counters
change.  A packet either goes out, sealed under the key of the connection, in one
datagram, or it fails and nothing goes out.

In a world that is ready it does not fail.
-/
import Framecast.Proofs.Action
import Framecast.Proofs.Network.Sends

namespace Framecast.Link

/-- The datagram is the packet, sealed under the key. -/
def Seals (key : Key) (p : Packet) (d : Bytes) : Prop :=
  ∃ nonce, nonce.length = Sealed.nonceSize ∧ d = Sealed.wrap key nonce p.encode

/-- The link comes from `l` to `m` and sends the datagrams `out`. -/
structure Onward (l : Link) (out : List Bytes) (m : Link) : Prop where
  network : l.network.Sends out m.network
  same : m.connection =
    { l.connection with bucket := m.connection.bucket, counters := m.connection.counters }

namespace Onward

variable {l m k : Link} {out later : List Bytes}

theorem refl (l : Link) : l.Onward [] l where
  network := .refl l.network
  same := rfl

theorem trans (h : l.Onward out m) (h' : m.Onward later k) : l.Onward (out ++ later) k where
  network := h.network.trans h'.network
  same := by
    rw [h'.same, h.same]

theorem key_eq (h : l.Onward out m) : m.connection.key = l.connection.key := by
  rw [h.same]

theorem stores_eq (h : l.Onward out m) : m.connection.stores = l.connection.stores := by
  rw [h.same]

theorem leased_eq (h : l.Onward out m) : m.connection.leased = l.connection.leased := by
  rw [h.same]

theorem isClosed_eq (h : l.Onward out m) : m.isClosed = l.isClosed := by
  unfold isClosed
  rw [h.same]

end Onward

variable {l : Link} {p : Packet}

/-! ### The parts of a send -/

theorem ensureOpen_of_closed (h : l.isClosed = true) : ensureOpen l = (.error .closed, l) := by
  rw [ensureOpen, if_pos h]

theorem ensureOpen_of_open (h : l.isClosed = false) : ensureOpen l = (.ok (), l) := by
  rw [ensureOpen, if_neg (by rw [h]; exact Bool.false_ne_true)]

theorem sendPacket_of_closed (p : Packet) (h : l.isClosed = true) :
    sendPacket p l = (.error .closed, l) := by
  unfold sendPacket
  exact Action.bind_of_error (ensureOpen_of_closed h)

theorem sendPacket_of_large (hopen : l.isClosed = false) (hsize : Packet.maxSize < p.size) :
    sendPacket p l = (.error (.packetTooLarge p.size Packet.maxSize), l) := by
  unfold sendPacket
  rw [Action.bind_of_ok (ensureOpen_of_open hopen), if_pos hsize]
  rfl

/-- On an open connection, a packet that fits is sealed with the bytes of a draw, paced
and offered. -/
theorem sendPacket_of_open (hopen : l.isClosed = false) (hsize : p.size ≤ Packet.maxSize) :
    sendPacket p l =
      match l.network.draw Sealed.nonceSize with
      | (none, n) => (.error .sealing, { l with network := n })
      | (some nonce, n) =>
        transmit (Sealed.wrap l.connection.key nonce p.encode)
          (pace (Sealed.wrap l.connection.key nonce p.encode).length { l with network := n }) := by
  have hfits : ¬ p.size > Packet.maxSize := by omega
  unfold sendPacket
  rw [Action.bind_of_ok (ensureOpen_of_open hopen), if_neg hfits]
  cases hdraw : l.network.draw Sealed.nonceSize with
  | mk drawn n =>
      have hbytes : onNetwork (Network.drawBytes Sealed.nonceSize) l =
          (drawn.elim (.error .sealing) .ok, { l with network := n }) := by
        unfold onNetwork Network.drawBytes
        rw [hdraw]
        cases drawn <;> rfl
      cases drawn with
      | none => exact Action.bind_of_error (Action.bind_of_error hbytes)
      | some nonce =>
          have hseal : sealPacket p l =
              (.ok (Sealed.wrap l.connection.key nonce p.encode), { l with network := n }) := by
            unfold sealPacket
            rw [Action.bind_of_ok hbytes]
            rfl
          rw [Action.bind_of_ok hseal]
          rfl

/-- Waiting for the pacer sends nothing. -/
theorem onward_pace (bytes : Nat) (l : Link) : l.Onward [] (pace bytes l) := by
  unfold pace
  cases hbucket : l.connection.bucket with
  | none => exact .refl l
  | some bucket => exact ⟨(Bucket.waitFor_network bytes Bucket.maxAttempts bucket _).1, rfl⟩

theorem pace_network (bytes : Nat) (l : Link) :
    (pace bytes l).network.outbound = l.network.outbound ∧
      (pace bytes l).network.random = l.network.random := by
  unfold pace
  cases hbucket : l.connection.bucket with
  | none => exact ⟨rfl, rfl⟩
  | some bucket => exact (Bucket.waitFor_network bytes Bucket.maxAttempts bucket l.network).2

/-- A sealed packet goes out, or nothing does. -/
theorem transmit_cases (d : Bytes) (l : Link) :
    (∃ m, transmit d l = (.ok (), m) ∧ l.Onward [d] m) ∨
      ∃ e m, transmit d l = (.error e, m) ∧ l.Onward [] m := by
  unfold transmit
  rcases Network.offer_cases l.network d maxRetries with ⟨n, hoffer, hn⟩ | ⟨errno, n, hoffer, hn⟩
  · rw [hoffer]
    exact Or.inl ⟨_, rfl, hn, rfl⟩
  · rw [hoffer]
    exact Or.inr ⟨.system errno, _, rfl, hn, rfl⟩

/-! ### A whole send -/

/-- **A send puts its packet into one datagram, or fails and sends nothing.** -/
theorem sendPacket_cases (hopen : l.isClosed = false) (hsize : p.size ≤ Packet.maxSize) :
    (∃ d m, sendPacket p l = (.ok (), m) ∧ Seals l.connection.key p d ∧ l.Onward [d] m) ∨
      ∃ e m, sendPacket p l = (.error e, m) ∧ l.Onward [] m := by
  rw [sendPacket_of_open hopen hsize]
  rcases l.network.draw_cases Sealed.nonceSize with hdraw | ⟨nonce, random, hdraw, hnonce⟩
  · rw [hdraw]
    exact Or.inr ⟨.sealing, _, rfl, .refl l⟩
  · rw [hdraw]
    dsimp only
    generalize hd : Sealed.wrap l.connection.key nonce p.encode = d
    have hdrawn : l.Onward [] { l with network := { l.network with random } } :=
      ⟨.of_trace_eq rfl, rfl⟩
    have hpaced := hdrawn.trans (onward_pace d.length _)
    rcases transmit_cases d (pace d.length { l with network := { l.network with random } }) with
      ⟨m, hsend, hm⟩ | ⟨e, m, hsend, hm⟩
    · exact Or.inl ⟨d, m, hsend, ⟨nonce, hnonce, hd.symm⟩, hpaced.trans hm⟩
    · exact Or.inr ⟨e, m, hsend, hpaced.trans hm⟩

/-- Whatever becomes of a packet, only the pacer and the counters of the connection
change. -/
theorem onward_sendPacket (p : Packet) (l : Link) : ∃ out, l.Onward out (sendPacket p l).2 := by
  by_cases hclosed : l.isClosed = true
  · rw [sendPacket_of_closed p hclosed]
    exact ⟨[], .refl l⟩
  have hopen : l.isClosed = false := by simpa using hclosed
  by_cases hsize : p.size ≤ Packet.maxSize
  · rcases sendPacket_cases hopen hsize with ⟨d, m, hsend, -, hm⟩ | ⟨e, m, hsend, hm⟩
    · rw [hsend]
      exact ⟨[d], hm⟩
    · rw [hsend]
      exact ⟨[], hm⟩
  · rw [sendPacket_of_large hopen (by omega)]
    exact ⟨[], .refl l⟩

/-- **In a world that is ready a send succeeds,** and leaves it ready for one fewer. -/
theorem sendPacket_of_ready {count : Nat} (hopen : l.isClosed = false)
    (hsize : p.size ≤ Packet.maxSize) (hready : l.network.Ready (count + 1)) :
    ∃ m, sendPacket p l = (.ok (), m) ∧ m.network.Ready count := by
  obtain ⟨nonce, random, hdraw, -, hlimit, hdrawn⟩ := hready.draw
  rw [sendPacket_of_open hopen hsize, hdraw]
  dsimp only
  generalize Sealed.wrap l.connection.key nonce p.encode = d
  obtain ⟨hout, hrandom⟩ := pace_network d.length { l with network := { l.network with random } }
  generalize pace d.length { l with network := { l.network with random } } = m at hout hrandom
  dsimp only at hout hrandom
  have haccepts : ∀ fate ∈ m.network.outbound.head?, fate = none := by
    rw [hout]
    exact hready.accepts_first
  obtain ⟨n, hoffer, hleft, hsource⟩ := Network.offer_of_accepts maxRetries haccepts
  unfold transmit
  rw [hoffer]
  refine ⟨_, rfl, hready.next ?_ ?_ ?_⟩
  · exact hleft.trans (congrArg List.tail hout)
  · show n.random.limit = _
    rw [hsource, hrandom, hlimit]
  · show n.random.drawn = _
    rw [hsource, hrandom, hdrawn]

end Framecast.Link
