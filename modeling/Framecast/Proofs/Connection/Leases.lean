/-
At most one packet of a connection is on lease.

A connection remembers only whether a packet of it is out; the program remembers which
packets it has.  `Sound` says that the two agree.  A read checks the mark before it looks
at the network and sets it exactly if it comes back with a packet, so it adds a lease
where there was none; all its other ends leave the mark clear.  A lease that ends, on
whichever connection it is given back, clears the mark of the connection it is from, and
as there is no other lease of that connection the two agree again.  No other use touches
the mark.

The network may come to any state in between, so nothing is assumed of what arrives.
-/
import Mathlib.Data.List.Nodup
import Framecast.Connection.Host
import Framecast.Proofs.Connection.Uses

namespace Framecast

namespace Link

variable {l : Link}

/-! ### The mark of a connection -/

theorem leased_keepAll (packets : List Packet) (l : Link) :
    (keepAll packets l).connection.leased = l.connection.leased := by
  induction packets generalizing l with
  | nil => rfl
  | cons p rest ih => exact ih (keep p l)

theorem leased_sendPacket (p : Packet) (l : Link) :
    (sendPacket p l).2.connection.leased = l.connection.leased := by
  obtain ⟨out, h⟩ := onward_sendPacket p l
  exact h.leased_eq

theorem leased_sendUnit (channel : Channel) (payload : Bytes) (id : Int32) (l : Link) :
    (sendUnit channel payload id l).2.connection.leased = l.connection.leased := by
  obtain ⟨packets, out, -, h⟩ := onward_sendUnit channel payload id l
  exact h.leased_eq.trans (leased_keepAll packets l)

theorem leased_receiveOne (l : Link) :
    (receiveOne l).2.connection.leased = l.connection.leased := by
  have hleaves : receiveOne.Leaves fun l => l.connection.leased :=
    leaves_receiveOne_of (fun _ _ => rfl) fun _ _ => rfl
  exact hleaves l

/-- Only reading and giving back change the mark. -/
theorem Use.leased_run (use : Use) (hread : use ≠ .read) (hrelease : use ≠ .release) (l : Link) :
    (use.run l).connection.leased = l.connection.leased := by
  cases use with
  | send channel payload id => exact leased_sendUnit channel payload id l
  | control m => exact leased_sendUnit .message m.encode l.connection.nextMessage _
  | packet p => exact leased_sendPacket p l
  | resend channel id index =>
      rw [Use.run]
      rcases resend_cases channel id index l with ⟨p, -, hsend⟩ | ⟨-, hsend⟩ | ⟨-, hsend⟩
      · rw [hsend]
        exact leased_sendPacket p _
      · rw [hsend]
        rfl
      · rw [hsend]
        rfl
  | register channel maxUnit units =>
      rw [Use.run]
      unfold Link.register
      split <;> rfl
  | settings burst fec =>
      rw [Use.run]
      unfold applySettings
      split <;> rfl
  | read => exact absurd rfl hread
  | release => exact absurd rfl hrelease
  | close => rfl
  | elsewhere network => rfl

/-- **What a read can come to:** it is refused and changes nothing, it returns a packet
that is on lease then, or it leaves the connection without a lease. -/
theorem readPacket_cases (l : Link) :
    (readPacket l = (.error .closed, l) ∧ l.isClosed = true) ∨
      (readPacket l = (.error .leaseOut, l) ∧ l.isClosed = false ∧ l.connection.leased = true) ∨
      (l.isClosed = false ∧ l.connection.leased = false ∧
        ((∃ p m, readPacket l = (.ok (some p), m) ∧ m.connection.leased = true) ∨
          ∃ r m, readPacket l = (r, m) ∧ m.connection.leased = false ∧
            (r = .ok none ∨ ∃ errno, r = .error (.system errno)))) := by
  by_cases hclosed : l.isClosed = true
  · exact Or.inl ⟨readPacket_of_closed hclosed, hclosed⟩
  have hopen : l.isClosed = false := by simpa using hclosed
  by_cases hleased : l.connection.leased = true
  · exact Or.inr (Or.inl ⟨readPacket_of_leased hopen hleased, hopen, hleased⟩)
  have hfree : l.connection.leased = false := by simpa using hleased
  refine Or.inr (Or.inr ⟨hopen, hfree, ?_⟩)
  have hleaves := leased_receiveOne l
  rw [readPacket_of_free hopen hfree]
  cases hone : receiveOne l with
  | mk r m =>
      rw [hone] at hleaves
      cases r with
      | error e => exact Or.inr ⟨_, _, rfl, hleaves.trans hfree, Or.inr (by
          obtain ⟨errno, rfl⟩ := system_of_receiveOne hone
          exact ⟨errno, rfl⟩)⟩
      | ok found =>
          cases found with
          | none => exact Or.inr ⟨_, _, rfl, rfl, Or.inl rfl⟩
          | some p => exact Or.inl ⟨p, _, rfl, rfl⟩

end Link

namespace Host

/-- A packet of the connection at a place is on lease. -/
def Out (h : Host) (i : Nat) : Prop :=
  ∃ lease ∈ h.leases, lease.owner = i

/-- The connections and the program agree on what is on lease. -/
structure Sound (h : Host) : Prop where
  leased_iff : ∀ i c, h.connections[i]? = some c → (c.leased = true ↔ h.Out i)
  /-- No two leases are from one connection. -/
  apart : (h.leases.map Lease.owner).Nodup
  within : ∀ lease ∈ h.leases, lease.owner < h.connections.size

variable {h k : Host} {i : Nat} {c : Connection} {l m : Link}

/-! ### One connection of many -/

theorem link?_eq_some_iff : h.link? i = some l ↔
    h.connections[i]? = some l.connection ∧ l.network = h.network := by
  unfold link?
  rw [Option.map_eq_some_iff]
  constructor
  · rintro ⟨c, hc, rfl⟩
    exact ⟨hc, rfl⟩
  · rintro ⟨hc, hnetwork⟩
    exact ⟨l.connection, hc, by rw [← hnetwork]⟩

/-- Putting back what was there changes nothing. -/
theorem putLink_self (hl : h.link? i = some l) : h.putLink i l = h := by
  obtain ⟨hc, hnetwork⟩ := link?_eq_some_iff.mp hl
  obtain ⟨hi, hget⟩ := Array.getElem?_eq_some_iff.mp hc
  unfold putLink
  rw [hnetwork, ← hget, Array.setIfInBounds_def, dif_pos hi, Array.set_getElem_self]

theorem getElem?_putLink_self (hl : h.link? i = some l) :
    (h.putLink i m).connections[i]? = some m.connection := by
  obtain ⟨hi, -⟩ := Array.getElem?_eq_some_iff.mp (link?_eq_some_iff.mp hl).1
  exact Array.getElem?_setIfInBounds_self_of_lt hi

theorem getElem?_putLink_of_ne {j : Nat} (hne : j ≠ i) :
    (h.putLink i m).connections[j]? = h.connections[j]? :=
  Array.getElem?_setIfInBounds_ne hne.symm

/-! ### A read -/

theorem lease_of_packet {p : Packet} (hl : h.link? i = some l)
    (hread : Link.readPacket l = (.ok (some p), m)) :
    h.lease i = some (.ok (some p), { h.putLink i m with leases := ⟨i, p⟩ :: h.leases }) := by
  unfold lease run
  rw [hl, Option.map_some, hread]
  rfl

theorem lease_of_none {r : Except Failure (Option Packet)} (hl : h.link? i = some l)
    (hread : Link.readPacket l = (r, m)) (hr : ∀ p, r ≠ .ok (some p)) :
    h.lease i = some (r, h.putLink i m) := by
  unfold lease run
  rw [hl, Option.map_some, hread, Option.map_some]
  cases r with
  | error e => rfl
  | ok found =>
      cases found with
      | none => rfl
      | some p => exact absurd rfl (hr p)

/-- **What reading for a program can come to:** the read is refused and changes nothing,
it adds a lease, or it leaves the leases as they are and the connection without one. -/
theorem lease_cases (hl : h.link? i = some l) :
    (h.lease i = some (.error .closed, h) ∧ l.isClosed = true) ∨
      (h.lease i = some (.error .leaseOut, h) ∧ l.isClosed = false ∧
        l.connection.leased = true) ∨
      (l.isClosed = false ∧ l.connection.leased = false ∧
        ((∃ p m, h.lease i =
            some (.ok (some p), { h.putLink i m with leases := ⟨i, p⟩ :: h.leases }) ∧
            m.connection.leased = true) ∨
          ∃ r m, h.lease i = some (r, h.putLink i m) ∧ m.connection.leased = false ∧
            (r = .ok none ∨ ∃ errno, r = .error (.system errno)))) := by
  rcases l.readPacket_cases with ⟨hread, hclosed⟩ | ⟨hread, hopen, hleased⟩ |
    ⟨hopen, hfree, ⟨p, m, hread, hm⟩ | ⟨r, m, hread, hm, hr⟩⟩
  · have hrun := lease_of_none hl hread fun p hp => (by cases hp)
    rw [putLink_self hl] at hrun
    exact Or.inl ⟨hrun, hclosed⟩
  · have hrun := lease_of_none hl hread fun p hp => (by cases hp)
    rw [putLink_self hl] at hrun
    exact Or.inr (Or.inl ⟨hrun, hopen, hleased⟩)
  · exact Or.inr (Or.inr ⟨hopen, hfree, Or.inl ⟨p, m, lease_of_packet hl hread, hm⟩⟩)
  · have hnone : ∀ p, r ≠ .ok (some p) := by
      rintro p rfl
      rcases hr with hr | ⟨errno, hr⟩ <;> cases hr
    exact Or.inr (Or.inr ⟨hopen, hfree, Or.inr ⟨r, m, lease_of_none hl hread hnone, hm, hr⟩⟩)

/-! ### The end of a lease -/

theorem getElem?_release_self (hc : h.connections[i]? = some c) :
    (h.release i).connections[i]? = some { c with leased := false } := by
  unfold release
  rw [Array.getElem?_modify, if_pos rfl, hc, Option.map_some]

theorem getElem?_release_of_ne {j : Nat} (hne : j ≠ i) :
    (h.release i).connections[j]? = h.connections[j]? := by
  unfold release
  rw [Array.getElem?_modify, if_neg hne.symm]

theorem mem_release {lease : Lease} :
    lease ∈ (h.release i).leases ↔ lease ∈ h.leases ∧ lease.owner ≠ i := by
  unfold release
  rw [List.mem_filter, decide_eq_true_eq]

namespace Sound

/-- Ending a lease ends no other one. -/
theorem release_eq_erase (hs : h.Sound) {lease : Lease} (hmem : lease ∈ h.leases) :
    (h.release lease.owner).leases = h.leases.erase lease := by
  have hnodup : h.leases.Nodup := List.Nodup.of_map Lease.owner hs.apart
  rw [hnodup.erase_eq_filter]
  refine List.filter_congr fun other hother => ?_
  by_cases hsame : other = lease
  · simp [hsame]
  · have howner : other.owner ≠ lease.owner := fun heq =>
      hsame (List.inj_on_of_nodup_map hs.apart hother hmem heq)
    simp [hsame, howner]

/-! ### What keeps the two in agreement -/

theorem new (network : Network) : Sound { network } where
  leased_iff := by
    intro i c hc
    simp at hc
  apart := List.nodup_nil
  within := fun lease hlease => (List.not_mem_nil hlease).elim

theorem elsewhere (hs : h.Sound) (network : Network) : Sound { h with network } :=
  ⟨hs.leased_iff, hs.apart, hs.within⟩

/-- A connection that was set up has nothing on lease. -/
theorem join (hs : h.Sound) (role : Role) (peer : Endpoint) (meeting : Configuration.Meeting)
    (now : Int) :
    Sound { h with connections := h.connections.push (.established role peer meeting now) } where
  leased_iff := by
    intro i c hc
    rw [Array.getElem?_push] at hc
    split at hc
    · rename_i hi
      cases hc
      refine ⟨fun hleased => (by cases hleased), fun ⟨lease, hmem, howner⟩ => ?_⟩
      have hlt := hs.within lease hmem
      omega
    · exact hs.leased_iff i c hc
  apart := hs.apart
  within := fun lease hlease => by
    rw [Array.size_push]
    exact Nat.lt_succ_of_lt (hs.within lease hlease)

/-- A use that leaves the mark alone. -/
theorem putLink (hs : h.Sound) (hl : h.link? i = some l)
    (hsame : m.connection.leased = l.connection.leased) : (h.putLink i m).Sound where
  leased_iff := by
    intro j c hc
    by_cases hj : j = i
    · subst hj
      rw [getElem?_putLink_self hl] at hc
      cases hc
      rw [hsame]
      exact hs.leased_iff j l.connection (link?_eq_some_iff.mp hl).1
    · rw [getElem?_putLink_of_ne hj] at hc
      exact hs.leased_iff j c hc
  apart := hs.apart
  within := fun lease hlease => by
    unfold Host.putLink
    rw [Array.size_setIfInBounds]
    exact hs.within lease hlease

/-- A connection that had nothing on lease leases a packet. -/
theorem lend (hs : h.Sound) (hl : h.link? i = some l) (hfree : l.connection.leased = false)
    (hleased : m.connection.leased = true) (p : Packet) :
    Sound { h.putLink i m with leases := ⟨i, p⟩ :: h.leases } := by
  have hi : h.connections[i]? = some l.connection := (link?_eq_some_iff.mp hl).1
  have hnone : ¬ h.Out i := fun hout => by
    rw [(hs.leased_iff i l.connection hi).mpr hout] at hfree
    cases hfree
  refine ⟨fun j c hc => ?_, ?_, fun lease hlease => ?_⟩
  · by_cases hj : j = i
    · subst hj
      have hc' : (h.putLink j m).connections[j]? = some c := hc
      rw [getElem?_putLink_self hl] at hc'
      cases hc'
      exact ⟨fun _ => ⟨⟨j, p⟩, List.mem_cons_self .., rfl⟩, fun _ => hleased⟩
    · have hc' : (h.putLink i m).connections[j]? = some c := hc
      rw [getElem?_putLink_of_ne hj] at hc'
      rw [hs.leased_iff j c hc']
      constructor
      · rintro ⟨lease, hmem, howner⟩
        exact ⟨lease, List.mem_cons_of_mem _ hmem, howner⟩
      · rintro ⟨lease, hmem, howner⟩
        rcases List.mem_cons.mp hmem with rfl | hmem
        · exact absurd howner.symm hj
        · exact ⟨lease, hmem, howner⟩
  · rw [List.map_cons, List.nodup_cons]
    refine ⟨fun hmem => hnone ?_, hs.apart⟩
    obtain ⟨lease, hlease, howner⟩ := List.mem_map.mp hmem
    exact ⟨lease, hlease, howner⟩
  · show lease.owner < (h.connections.setIfInBounds i m.connection).size
    rw [Array.size_setIfInBounds]
    rcases List.mem_cons.mp hlease with rfl | hmem
    · exact (Array.getElem?_eq_some_iff.mp hi).1
    · exact hs.within lease hmem

theorem release (hs : h.Sound) (i : Nat) : (h.release i).Sound where
  leased_iff := by
    intro j c hc
    by_cases hj : j = i
    · subst hj
      have hnone : ¬ (h.release j).Out j := by
        rintro ⟨lease, hmem, howner⟩
        exact (mem_release.mp hmem).2 howner
      cases hget : h.connections[j]? with
      | none =>
          unfold Host.release at hc
          rw [Array.getElem?_modify, if_pos rfl, hget] at hc
          cases hc
      | some before =>
          rw [getElem?_release_self hget] at hc
          cases hc
          exact ⟨fun hleased => (by cases hleased), fun hout => absurd hout hnone⟩
    · rw [getElem?_release_of_ne hj] at hc
      rw [hs.leased_iff j c hc]
      constructor
      · rintro ⟨lease, hmem, rfl⟩
        exact ⟨lease, mem_release.mpr ⟨hmem, hj⟩, rfl⟩
      · rintro ⟨lease, hmem, howner⟩
        exact ⟨lease, (mem_release.mp hmem).1, howner⟩
  apart := hs.apart.sublist (List.filter_sublist.map Lease.owner)
  within := fun lease hlease => by
    unfold Host.release
    rw [Array.size_modify]
    exact hs.within lease (mem_release.mp hlease).1

theorem read (hs : h.Sound) {r : Except Failure (Option Packet)}
    (hread : h.lease i = some (r, k)) : k.Sound := by
  cases hl : h.link? i with
  | none =>
      unfold Host.lease Host.run at hread
      rw [hl] at hread
      cases hread
  | some l =>
      rcases lease_cases hl with ⟨hrun, -⟩ | ⟨hrun, -, -⟩ |
        ⟨-, hfree, ⟨p, m, hrun, hleased⟩ | ⟨r', m, hrun, hm, -⟩⟩
      · rw [hrun] at hread
        cases hread
        exact hs
      · rw [hrun] at hread
        cases hread
        exact hs
      · rw [hrun] at hread
        cases hread
        exact hs.lend hl hfree hleased p
      · rw [hrun] at hread
        cases hread
        exact hs.putLink hl (hm.trans hfree.symm)

theorem giveBack (hs : h.Sound) {owner taker : Nat} {r : Except Failure Unit}
    (hgive : h.giveBack owner taker = some (r, k)) : k.Sound := by
  unfold Host.giveBack at hgive
  split at hgive
  · cases hgive
    exact hs.release owner
  · cases hgive

end Sound

/-! ### A program that uses its connections -/

/-- A program whose connections were set up and have been used since. -/
inductive Standing : Host → Prop
  | new (network : Network) : Standing { network }
  /-- One more connection was set up. -/
  | join {h : Host} (hh : Standing h) (role : Role) (peer : Endpoint)
      (meeting : Configuration.Meeting) (now : Int) :
      Standing { h with connections := h.connections.push (.established role peer meeting now) }
  /-- A packet was read, or tried to be, and kept on lease. -/
  | read {h k : Host} (hh : Standing h) {i : Nat} {r : Except Failure (Option Packet)}
      (hread : h.lease i = some (r, k)) : Standing k
  /-- A lease was dropped. -/
  | drop {h : Host} (hh : Standing h) {lease : Lease} (hmem : lease ∈ h.leases) :
      Standing (h.release lease.owner)
  /-- A lease was given back, to whichever connection. -/
  | giveBack {h k : Host} (hh : Standing h) {owner taker : Nat} {r : Except Failure Unit}
      (hgive : h.giveBack owner taker = some (r, k)) : Standing k
  /-- A connection was used in another way. -/
  | use {h : Host} (hh : Standing h) {i : Nat} {l : Link} (hl : h.link? i = some l)
      (use : Link.Use) (hread : use ≠ .read) (hrelease : use ≠ .release) :
      Standing (h.putLink i (use.run l))
  /-- The network came to another state. -/
  | elsewhere {h : Host} (hh : Standing h) (network : Network) : Standing { h with network }

/-- Connections and program agree at any time. -/
theorem Standing.sound (hh : Standing h) : h.Sound := by
  induction hh with
  | new network => exact .new network
  | join _ role peer meeting now ih => exact ih.join role peer meeting now
  | read _ hread ih => exact ih.read hread
  | drop _ _ ih => exact ih.release _
  | giveBack _ hgive ih => exact ih.giveBack hgive
  | use _ hl use hread hrelease ih => exact ih.putLink hl (use.leased_run hread hrelease _)
  | elsewhere _ network ih => exact ih.elsewhere network

/-- What can become of a read of the connection `c` at a place. -/
inductive ReadAt (h : Host) (i : Nat) (c : Connection) :
    Except Failure (Option Packet) → Host → Prop
  /-- The connection is closed; nothing changes. -/
  | closed (hclosed : c.phase = .closed) : ReadAt h i c (.error .closed) h
  /-- A packet is out; nothing changes. -/
  | leaseOut (hopen : c.phase ≠ .closed) (hout : h.Out i) : ReadAt h i c (.error .leaseOut) h
  /-- A packet is read, and on lease from then on. -/
  | packet {p : Packet} {k : Host} (hopen : c.phase ≠ .closed) (hfree : ¬ h.Out i)
      (hleases : k.leases = ⟨i, p⟩ :: h.leases) : ReadAt h i c (.ok (some p)) k
  /-- The read finds no packet, and leaves the connection free. -/
  | nothing {k : Host} {c' : Connection} (hleases : k.leases = h.leases) (hfree : ¬ k.Out i)
      (hc' : k.connections[i]? = some c') (hclear : c'.leased = false) :
      ReadAt h i c (.ok none) k
  /-- A call of the operating system fails, and the connection is left free. -/
  | failed {errno : Errno} {k : Host} {c' : Connection} (hleases : k.leases = h.leases)
      (hfree : ¬ k.Out i) (hc' : k.connections[i]? = some c') (hclear : c'.leased = false) :
      ReadAt h i c (.error (.system errno)) k

theorem Sound.readAt (hs : h.Sound) (hc : h.connections[i]? = some c) :
    ∃ r k, h.lease i = some (r, k) ∧ h.ReadAt i c r k ∧
      (r = .error .leaseOut ↔ c.phase ≠ .closed ∧ h.Out i) := by
  have hl : h.link? i = some { connection := c, network := h.network } :=
    link?_eq_some_iff.mpr ⟨hc, rfl⟩
  have hout := hs.leased_iff i c hc
  rcases lease_cases hl with ⟨hrun, hclosed⟩ | ⟨hrun, hopen, hleased⟩ | ⟨hopen, hfree, hrest⟩
  · have hphase : c.phase = .closed := of_decide_eq_true hclosed
    exact ⟨_, _, hrun, .closed hphase, fun hr => (by cases hr), fun hin => absurd hphase hin.1⟩
  · have hphase : c.phase ≠ .closed := of_decide_eq_false hopen
    exact ⟨_, _, hrun, .leaseOut hphase (hout.mp hleased),
      fun _ => ⟨hphase, hout.mp hleased⟩, fun _ => rfl⟩
  · have hphase : c.phase ≠ .closed := of_decide_eq_false hopen
    have hnone : ¬ h.Out i := fun hin => Bool.false_ne_true (hfree.symm.trans (hout.mpr hin))
    rcases hrest with ⟨p, m, hrun, -⟩ | ⟨r, m, hrun, hm, rfl | ⟨errno, rfl⟩⟩
    · exact ⟨_, _, hrun, .packet hphase hnone rfl, fun hr => (by cases hr),
        fun hin => absurd hin.2 hnone⟩
    · exact ⟨_, _, hrun, .nothing rfl hnone (getElem?_putLink_self hl) hm,
        fun hr => (by cases hr), fun hin => absurd hin.2 hnone⟩
    · exact ⟨_, _, hrun, .failed rfl hnone (getElem?_putLink_self hl) hm,
        fun hr => (by cases hr), fun hin => absurd hin.2 hnone⟩

/-- A lease ends wherever it is given back. -/
theorem giveBack_of_mem {lease : Lease} (hmem : lease ∈ h.leases) (taker : Nat) :
    h.giveBack lease.owner taker =
      some (if lease.owner = taker then .ok () else .error (.malformed .foreignLease),
        h.release lease.owner) := by
  unfold Host.giveBack
  rw [if_pos (List.any_eq_true.mpr ⟨lease, hmem, decide_eq_true rfl⟩)]

/--
**At most one packet of a connection is on lease.**  Take a program with any number of
connections, each set up and used in any way, on any network.

* The mark of a connection is set exactly if a packet of it is on lease, and there is
  never more than one.
* A read fails because a packet is out exactly if the connection is open and one is.
  A read that is refused changes nothing at all.  A read that returns a packet adds just
  this lease; one that finds none or fails adds none, and leaves the connection free.
* A lease can be dropped, or given back to any connection, its own or another.  Either
  way it ends, and no other lease does.
-/
theorem one_lease_at_a_time (hh : Standing h) :
    (∀ i c, h.connections[i]? = some c → (c.leased = true ↔ h.Out i)) ∧
      (h.leases.map Lease.owner).Nodup ∧
      (∀ i c, h.connections[i]? = some c → ∃ r k, h.lease i = some (r, k) ∧
        h.ReadAt i c r k ∧ (r = .error .leaseOut ↔ c.phase ≠ .closed ∧ h.Out i)) ∧
      ∀ lease ∈ h.leases,
        (h.release lease.owner).leases = h.leases.erase lease ∧
          ¬ (h.release lease.owner).Out lease.owner ∧
          ∀ taker, h.giveBack lease.owner taker =
            some (if lease.owner = taker then .ok () else .error (.malformed .foreignLease),
              h.release lease.owner) := by
  have hs := hh.sound
  refine ⟨hs.leased_iff, hs.apart, fun i c hc => hs.readAt hc, fun lease hmem => ?_⟩
  refine ⟨hs.release_eq_erase hmem, ?_, giveBack_of_mem hmem⟩
  rintro ⟨other, hother, howner⟩
  exact (mem_release.mp hother).2 howner

/-- A viewer that keeps nothing. -/
def viewer : Connection :=
  .established .client (.v4 .unspecified 0) { key := .constant 1 } 0

/-- Two viewers, and a network that brings the first one a sealed packet. -/
def twoViewers (p : Packet) : Host where
  network := {
    inbound := [⟨.datagram (Sealed.wrap (.constant 1) (List.replicate 12 0) p.encode)
      (.v4 .unspecified 0), 0⟩] }
  connections := #[viewer, viewer]

/-- While an empty frame is on lease nothing more is read.  Given back to the other viewer
it is refused there, and its own connection is free again. -/
theorem empty_frame_is_lent_once :
    ∃ k, (twoViewers {}).lease 0 = some (.ok (some {}), k) ∧
      (k.lease 0).map Prod.fst = some (.error .leaseOut) ∧
      k.giveBack 0 1 = some (.error (.malformed .foreignLease), k.release 0) ∧
      ¬ (k.release 0).Out 0 := by
  have hstanding : Standing (twoViewers {}) := ((Standing.new _).join ..).join ..
  have hl : (twoViewers {}).link? 0 =
      some { connection := viewer, network := (twoViewers {}).network } := rfl
  have hlistens : Link.Listens { connection := viewer, network := (twoViewers {}).network }
      (.constant 1) := ⟨rfl, rfl, rfl⟩
  obtain ⟨m, hread, hm, -⟩ := Link.readPacket_of_seals hlistens
    ⟨List.replicate 12 0, rfl, rfl⟩ (by decide : Packet.Valid {}) rfl
  have hrun := lease_of_packet hl hread
  obtain ⟨-, -, hreads, hends⟩ := one_lease_at_a_time (hstanding.read hrun)
  obtain ⟨r, k, hagain, -, hout⟩ := hreads 0 m.connection (getElem?_putLink_self hl)
  obtain ⟨-, hfree, hgive⟩ := hends ⟨0, {}⟩ (List.mem_cons_self ..)
  have hr : r = .error .leaseOut :=
    hout.mpr ⟨of_decide_eq_false hm.isOpen, ⟨0, {}⟩, List.mem_cons_self .., rfl⟩
  refine ⟨_, hrun, ?_, hgive 1, hfree⟩
  rw [hagain, Option.map_some, hr]

end Host

end Framecast
