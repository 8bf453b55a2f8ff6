/-
A unit crosses the network.

What the sender agrees to send is cut, written, sealed and sent; what the peer reads is
opened, read back and put together.  Each of these undoes the other, as long as the
bounds on the way fit each other: index and count survive in sixteen bits, a fragment
fits a packet, a sealed packet fits a read and is no challenge.  The check of the sender
is what makes them fit, whatever stores it measures against.
-/
import Mathlib.Data.List.Perm.Basic
import Framecast.Proofs.Connection.Reading
import Framecast.Proofs.Connection.Tries
import Framecast.Proofs.Packet.Reassembly
import Framecast.Proofs.Reception.Agreement

namespace Framecast.Link

open Authentication (sentSince meaning)

variable {l : Link} {channel : Channel} {id : Int32} {payload : Bytes}

theorem exists_of_forall₂ {α β : Type} {R : α → β → Prop} {as : List α} {bs : List β} {i : Nat}
    {b : β} (h : List.Forall₂ R as bs) (hb : bs[i]? = some b) : ∃ a, as[i]? = some a ∧ R a b := by
  obtain ⟨hi, hget⟩ := List.getElem?_eq_some_iff.mp hb
  have hi' : i < as.length := by rwa [h.length_eq]
  refine ⟨as[i], List.getElem?_eq_getElem hi', ?_⟩
  rw [← hget]
  exact h.get hi' hi

/-! ### What is agreed to be sent -/

theorem fst_unitLimits_le (stores : Stores) (channel : Channel) :
    (unitLimits stores channel).1 ≤ 65535 := by
  unfold unitLimits
  cases stores.get? channel with
  | none =>
      dsimp only
      split <;> exact Nat.le_of_ble_eq_true rfl
  | some store =>
      dsimp only
      split
      · exact Nat.le_of_ble_eq_true rfl
      · exact Nat.min_le_right _ _

/-- What passes the check has few enough fragments for sixteen bits. -/
theorem fragmentCount_le_of_checkUnit {size : Nat}
    (h : checkUnit l.connection.stores channel size = .ok ()) :
    fragmentCount size Packet.maxPayload ≤ 65535 :=
  (Receiver.sendable_iff.mp h).1.trans (fst_unitLimits_le _ channel)

theorem valid_of_mem_fragments {p : Packet}
    (hcount : fragmentCount payload.length Packet.maxPayload ≤ 65535)
    (h : p ∈ fragments channel id payload Packet.maxPayload) : p.Valid := by
  obtain ⟨i, hi, rfl⟩ := mem_fragments.mp h
  refine ⟨?_, length_piece_le payload Packet.maxPayload i⟩
  rw [UInt16.lt_iff_toNat_lt, toNat_index_fragmentAt _ _ _ _ _ (by omega),
    toNat_count_fragmentAt _ _ _ _ _ hcount]
  exact hi

/-- In a world that is ready, a unit that passes the check goes out, each fragment in a
datagram of its own. -/
theorem sendUnit_of_ready (id : Int32) (hopen : l.isClosed = false)
    (hcheck : checkUnit l.connection.stores channel payload.length = .ok ())
    (hready : l.network.Ready (fragmentCount payload.length Packet.maxPayload)) :
    (sendUnit channel payload id l).1 = .ok () ∧
      List.Forall₂ (Seals l.connection.key) (fragments channel id payload Packet.maxPayload)
        (sentSince l.network (sendUnit channel payload id l).2.network) := by
  have hsize : ∀ p ∈ fragments channel id payload Packet.maxPayload, p.size ≤ Packet.maxSize :=
    fun p => size_le_of_mem_fragments
  rw [← length_fragments channel id payload] at hready
  obtain ⟨fates, htries, hsent⟩ := tries_sendAll _ hopen hsize
  obtain ⟨datagrams, rfl⟩ := htries.of_ready hopen hsize hready
  have hall : (datagrams.map some).reduceOption = datagrams := by
    rw [List.reduceOption, List.filterMap_map]
    exact List.filterMap_some
  have hlength := htries.seals.length_eq.symm
  rw [List.length_map, length_fragments] at hlength
  rw [hall] at hsent
  have hseals := htries.seals
  rw [List.forall₂_map_right_iff] at hseals
  have hnetwork := htries.onward.network.sent
  rw [hall, network_keepAll] at hnetwork
  rw [sendUnit_of_checkUnit hopen hcheck, if_pos (hsent.trans hlength)]
  refine ⟨rfl, ?_⟩
  rw [hnetwork]
  exact hseals.imp fun p d h => h d rfl

/--
**Sending and reading are inverse over the wire.**  Let a unit pass the check of an open
connection, and let the world refuse none of its sends and leave random bytes for each.
Then the send succeeds, and:

* as many datagrams go out as the payload has fragments, each no longer than what is
  read of a datagram, and none of them a challenge;
* no fragment is too large for a packet;
* a peer with the same key to which datagram `i` comes next reads exactly fragment `i`,
  and its index is a place of the unit;
* a peer to which the datagrams come in any order reads all fragments in that order;
* the fragments, in any order, give the payload back.
-/
theorem unit_crosses_network (hopen : l.isClosed = false)
    (hcheck : checkUnit l.connection.stores channel payload.length = .ok ())
    (hready : l.network.Ready (fragmentCount payload.length Packet.maxPayload)) :
    let packets := fragments channel id payload Packet.maxPayload
    let datagrams := sentSince l.network (sendUnit channel payload id l).2.network
    (sendUnit channel payload id l).1 = .ok () ∧
      datagrams.length = fragmentCount payload.length Packet.maxPayload ∧
      (∀ d ∈ datagrams, d.length ≤ Sealed.maxSize ∧ ∀ nonce, meaning d ≠ .challenge nonce) ∧
      (∀ p ∈ packets, p.size ≤ Packet.maxSize) ∧
      (∀ i d, datagrams[i]? = some d →
        ∃ p, packets[i]? = some p ∧ p.index.toNat = i ∧
          p.count.toNat = fragmentCount payload.length Packet.maxPayload ∧ p.index < p.count ∧
          ∀ peer, Listens peer l.connection.key → Authentication.Arrives peer.network d →
            (readPacket peer).1 = .ok (some p)) ∧
      (∀ peer arrived events later, Listens peer l.connection.key → arrived.Perm datagrams →
        Brings events arrived → peer.network.inbound = events ++ later →
          List.Forall₂ (Seals l.connection.key) (readAll arrived.length peer) arrived ∧
            (readAll arrived.length peer).Perm packets) ∧
      ∀ read : List Packet, read.Perm packets → unfragment read = some payload := by
  intro packets datagrams
  have hcount := fragmentCount_le_of_checkUnit hcheck
  have hvalid : ∀ p ∈ packets, p.Valid := fun p => valid_of_mem_fragments hcount
  obtain ⟨hok, hseals⟩ := sendUnit_of_ready id hopen hcheck hready
  change List.Forall₂ (Seals l.connection.key) packets datagrams at hseals
  have hlength : packets.length = fragmentCount payload.length Packet.maxPayload :=
    length_fragments ..
  refine ⟨hok, hseals.length_eq.symm.trans hlength, ?_, fun p => size_le_of_mem_fragments, ?_, ?_,
    ?_⟩
  · intro d hd
    obtain ⟨i, hi⟩ := List.mem_iff_getElem?.mp hd
    obtain ⟨p, hp, hseal⟩ := exists_of_forall₂ hseals hi
    have hsize := size_le_of_mem_fragments (List.mem_of_getElem? hp)
    exact ⟨length_le_of_seals hseal hsize, meaning_ne_challenge_of_seals hseal⟩
  · intro i d hd
    obtain ⟨p, hp, hseal⟩ := exists_of_forall₂ hseals hd
    have hpvalid := hvalid p (List.mem_of_getElem? hp)
    obtain ⟨hi, hplace⟩ := List.getElem?_eq_some_iff.mp hp
    rw [hlength] at hi
    have hfragment : p = fragmentAt channel id payload Packet.maxPayload i := by
      rw [← hplace]
      simp only [packets, fragments_eq_map, List.getElem_map, List.getElem_range]
    refine ⟨p, hp, ?_, ?_, hpvalid.1, ?_⟩
    · rw [hfragment, toNat_index_fragmentAt _ _ _ _ _ (by omega)]
    · rw [hfragment, toNat_count_fragmentAt _ _ _ _ _ hcount]
    · intro peer hlistens harrives
      obtain ⟨sender, delay, later, hinbound⟩ := harrives
      obtain ⟨m, hread, -, -⟩ := readPacket_of_seals hlistens hseal hpvalid hinbound
      rw [hread]
  · -- The packets in the order of their datagrams are the fragments in some order.
    intro peer arrived events later hlistens hperm hbrings harrives
    obtain ⟨read, hread, hsame⟩ := List.perm_comp_forall₂ hperm hseals.flip
    have hall : readAll arrived.length peer = read := by
      rw [← hread.flip.length_eq]
      exact readAll_of_seals hlistens hbrings hread.flip
        (fun p hp => hvalid p (hsame.mem_iff.mp hp)) harrives
    rw [hall]
    exact ⟨hread.flip, hsame⟩
  · intro read hperm
    exact unfragment_eq_some hcount fun p => hperm.mem_iff

/-- The viewer's end of a connection that keeps nothing, on a network that refuses
nothing. -/
def caller (key : Key) : Link where
  connection := { role := .client, peer := .v4 .unspecified 0, key, readTimeout := 0 }
  network := {}

/-- Three bytes of video are read as they were sent. -/
theorem three_bytes_cross_network :
    ∃ d, sentSince (caller (.constant 1)).network
        (sendUnit .video [1, 2, 3] 7 (caller (.constant 1))).2.network = [d] ∧
      ∀ peer, Listens peer (.constant 1) → Authentication.Arrives peer.network d →
        (readPacket peer).1 =
          .ok (some { channel := .video, id := 7, index := 0, count := 1, payload := [1, 2, 3] }) := by
  have hready : (caller (.constant 1)).network.Ready (fragmentCount 3 Packet.maxPayload) :=
    ⟨fun fate hfate => (List.not_mem_nil hfate).elim, fun limit hlimit => by cases hlimit⟩
  obtain ⟨-, hcount, -, -, hread, -, -⟩ :=
    @unit_crosses_network (caller (.constant 1)) .video 7 [1, 2, 3] rfl rfl hready
  obtain ⟨d, hd⟩ := List.length_eq_one_iff.mp hcount
  refine ⟨d, hd, fun peer hlistens harrives => ?_⟩
  rw [hd] at hread
  obtain ⟨p, hp, -, -, -, hpeer⟩ := hread 0 d rfl
  rw [hpeer peer hlistens harrives]
  exact congrArg Except.ok hp.symm

end Framecast.Link
