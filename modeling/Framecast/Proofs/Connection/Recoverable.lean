/-
A partial send is told as what it is, and can be made good.

The fragments of a unit are kept before they are tried, so what became of a try does not
matter for what can be asked for later.  They have different indices, and the check of
the sender says that the store has a place for each; so all of them are recalled when
the send is over.  From then on they are, until a unit of the same room is sent on the
channel, whatever else the connection is used for.
-/
import Framecast.Proofs.Connection.Crossing
import Framecast.Proofs.Connection.Uses

namespace Framecast.Link

open Authentication (sentSince)

/-- The link was used on from `l` to `m`, and on the channel no unit of the room of `id`
was sent. -/
inductive Sparing (channel : Channel) (id : Int32) (units : Nat) (l : Link) : Link → Prop
  | refl : Sparing channel id units l l
  | use {m : Link} (h : Sparing channel id units l m) (use : Use)
      (hspares : ∀ other, use.unit? m = some (channel, other) →
        other.toInt % (units : Int) ≠ id.toInt % (units : Int)) :
      Sparing channel id units l (use.run m)

variable {l m : Link} {channel : Channel} {id : Int32} {payload : Bytes} {store : Store}

/-- What is recalled stays recalled while its room is spared. -/
theorem Sparing.recalls {units : Nat} {p : Packet} (h : Sparing p.channel p.id units l m)
    (hrecalls : l.stores.Recalls units p) : m.stores.Recalls units p := by
  induction h with
  | refl => exact hrecalls
  | use _ use hspares ih =>
      obtain ⟨packets, hunit, hchange⟩ := use.change _
      refine ih.change hchange fun q hq hsame => ?_
      have hq' := hunit q hq
      rw [hsame] at hq'
      exact hspares q.id hq'

/-- The store has a place for every fragment of a unit that passes the check. -/
theorem fragmentCount_le_places (hplaces : 0 < store.places)
    (hstore : l.stores.get? channel = some store)
    (hcheck : checkUnit l.connection.stores channel payload.length = .ok ()) :
    fragmentCount payload.length Packet.maxPayload ≤ store.places := by
  have hlimit : (unitLimits l.connection.stores channel).1 ≤ store.places := by
    change l.connection.stores.get? channel = some store at hstore
    unfold unitLimits
    rw [hstore]
    dsimp only
    split
    · exact hplaces
    · exact Nat.min_le_left _ _
  exact (Receiver.sendable_iff.mp hcheck).1.trans hlimit

/-- When a unit was sent, all its fragments are recalled. -/
theorem recalls_sendUnit (hsound : l.stores.Sound)
    (hstore : l.stores.get? channel = some store)
    (hcheck : checkUnit l.connection.stores channel payload.length = .ok ())
    {fates : List (Option Bytes)}
    (htries : Tries l (fragments channel id payload Packet.maxPayload) fates m) {p : Packet}
    (hp : p ∈ fragments channel id payload Packet.maxPayload) : m.stores.Recalls store.units p := by
  obtain ⟨hsoundstore, hplaces⟩ := hsound channel store hstore
  have hcount := fragmentCount_le_of_checkUnit hcheck
  have hfit := fragmentCount_le_places hplaces hstore hcheck
  have hkept : m.stores = l.stores.insertAll (fragments channel id payload Packet.maxPayload) := by
    rw [← stores_keepAll]
    exact htries.onward.stores_eq
  rw [hkept]
  refine Stores.recalls_insertAll hstore hsoundstore ?_ ?_ (pairwise_index_fragments hcount) hp
  · intro q hq
    obtain ⟨i, -, rfl⟩ := mem_fragments.mp hq
    rfl
  · intro q hq
    obtain ⟨i, hi, rfl⟩ := mem_fragments.mp hq
    rw [toNat_index_fragmentAt _ _ _ _ _ (by omega)]
    omega

/-- A fragment that is found is sent as what was found. -/
theorem resend_of_find {index : UInt16} {p : Packet}
    (h : (l.stores.find channel id index).1 = .ok p) :
    resend channel id index l =
      sendPacket p ((l.update fun c =>
        { c with stores := (l.stores.find channel id index).2 }).count fun c =>
          { c with resent := c.resent + 1 }) := by
  have hfind : l.connection.stores.find channel id index =
      (.ok p, (l.stores.find channel id index).2) := Prod.ext h rfl
  unfold resend
  rw [hfind]

/-- Only a unit that was refused is told that it was. -/
theorem sendUnit_of_refusal
    (h : (sendUnit channel payload id l).1 = .error .closed ∨
      ∃ other size count most limit,
        (sendUnit channel payload id l).1 = .error (.payloadTooLarge other size count most limit)) :
    (sendUnit channel payload id l).2 = l := by
  by_cases hclosed : l.isClosed = true
  · exact sendUnit_of_refused (Or.inl hclosed)
  · have hopen : l.isClosed = false := by simpa using hclosed
    cases hcheck : checkUnit l.connection.stores channel payload.length with
    | error e => exact sendUnit_of_refused (Or.inr ⟨e, hcheck⟩)
    | ok _ =>
        exfalso
        rw [sendUnit_of_checkUnit hopen hcheck] at h
        dsimp only at h
        split at h
        · rcases h with h | ⟨_, _, _, _, _, h⟩ <;> cases h
        · rcases h with h | ⟨_, _, _, _, _, h⟩ <;> cases h

/--
**Partial sends are told exactly and stay recoverable.**  Take any connection that was
set up and used in any way, with any network.  If it is open, has a store for a channel,
and a unit passes the check of the sender, then there is a run of tries, one for each
fragment in the order of the indices, and

* the datagrams that went out are those of the tries that succeeded;
* the send succeeds exactly if every try did, and otherwise says how many did, and how
  many fragments the unit has;
* as long as no unit of the same room is sent on the channel, each fragment is found,
  whether or not it went out, and a request for it sends the fragment with nothing
  changed but the mark.

A send that is refused, because the connection is closed or the unit too large, changes
nothing at all.
-/
theorem partial_send_is_recoverable (h : Standing l) :
    (l.isClosed = false → ∀ store, l.stores.get? channel = some store →
      checkUnit l.connection.stores channel payload.length = .ok () →
        ∃ fates, Tries l (fragments channel id payload Packet.maxPayload) fates
            (sendUnit channel payload id l).2 ∧
          sentSince l.network (sendUnit channel payload id l).2.network = fates.reduceOption ∧
          ((sendUnit channel payload id l).1 = .ok () ↔ ∀ fate ∈ fates, fate.isSome) ∧
          ((sendUnit channel payload id l).1 ≠ .ok () →
            (sendUnit channel payload id l).1 = .error (.partialSend fates.reduceOption.length
              (fragmentCount payload.length Packet.maxPayload))) ∧
          ∀ m, Sparing channel id store.units (sendUnit channel payload id l).2 m →
            ∀ i, i < fragmentCount payload.length Packet.maxPayload →
              ∃ p, (fragments channel id payload Packet.maxPayload)[i]? = some p ∧
                p.index.toNat = i ∧
                (m.stores.find channel id p.index).1 = .ok { p with resent := true } ∧
                resend channel id p.index m =
                  sendPacket { p with resent := true }
                    ((m.update fun c =>
                      { c with stores := (m.stores.find channel id p.index).2 }).count fun c =>
                        { c with resent := c.resent + 1 })) ∧
    ((sendUnit channel payload id l).1 = .error .closed ∨
        (∃ other size count most limit, (sendUnit channel payload id l).1 =
          .error (.payloadTooLarge other size count most limit)) →
      (sendUnit channel payload id l).2 = l) := by
  refine ⟨fun hopen store hstore hcheck => ?_, sendUnit_of_refusal⟩
  obtain ⟨fates, htries, hcount⟩ := tries_sendAll
    (fragments channel id payload Packet.maxPayload) hopen
    fun p => size_le_of_mem_fragments
  have hlength := htries.seals.length_eq.symm
  rw [length_fragments] at hlength
  have hall : fates.reduceOption.length = fragmentCount payload.length Packet.maxPayload ↔
      ∀ fate ∈ fates, fate.isSome := by
    rw [← hlength, List.reduceOption_length_eq_iff]
  have hnetwork := htries.onward.network.sent
  rw [network_keepAll] at hnetwork
  refine ⟨fates, ?_⟩
  rw [sendUnit_of_checkUnit hopen hcheck, hcount]
  refine ⟨htries, hnetwork, ?_, ?_, ?_⟩
  · rw [← hall]
    dsimp only
    split
    · rename_i heq
      exact ⟨fun _ => heq, fun _ => rfl⟩
    · rename_i hne
      exact ⟨fun hok => (by cases hok), fun heq => absurd heq hne⟩
  · intro hfail
    dsimp only at hfail ⊢
    split at hfail
    · exact absurd rfl hfail
    · rename_i hne
      rw [if_neg hne]
  · intro m hsparing i hi
    have hplace : (fragments channel id payload Packet.maxPayload)[i]? =
        some (fragmentAt channel id payload Packet.maxPayload i) := by
      rw [fragments_eq_map, List.getElem?_map, List.getElem?_range hi, Option.map_some]
    have hkept := recalls_sendUnit h.sound hstore hcheck htries
      (List.mem_of_getElem? hplace)
    have hfound := Stores.find_of_recalls
      (Sparing.recalls (p := fragmentAt channel id payload Packet.maxPayload i) hsparing hkept)
    have hcount := fragmentCount_le_of_checkUnit hcheck
    exact ⟨_, hplace, toNat_index_fragmentAt _ _ _ _ _ (by omega), hfound, resend_of_find hfound⟩

/-- A viewer that keeps four frames, on a network that refuses its first send. -/
def refusedOnce : Link :=
  Use.run (.register .video 2000 4)
    { connection := .established .client (.v4 .unspecified 0) { key := .constant 1 } 0
      network := { outbound := [some .connectionRefused] } }

/-- A byte that did not go out is found when it is asked for. -/
theorem refused_byte_is_found :
    (sendUnit .video [5] 7 refusedOnce).1 = .error (.partialSend 0 1) ∧
      ((sendUnit .video [5] 7 refusedOnce).2.stores.find .video 7 0).1 =
        .ok { channel := .video, id := 7, index := 0, count := 1, resent := true, payload := [5] } := by
  refine ⟨rfl, ?_⟩
  have hstanding : Standing refusedOnce := .use (.new ..) _
  obtain ⟨fates, -, -, -, -, hrecover⟩ :=
    (@partial_send_is_recoverable refusedOnce .video 7 [5] hstanding).1 rfl _ rfl rfl
  obtain ⟨p, hp, -, hfound, -⟩ := hrecover _ .refl 0 (by decide)
  have hfirst : (fragments .video 7 [5] Packet.maxPayload)[0]? =
      some { channel := .video, id := 7, index := 0, count := 1, payload := [5] } := rfl
  rw [hfirst, Option.some.injEq] at hp
  subst hp
  exact hfound

end Framecast.Link
