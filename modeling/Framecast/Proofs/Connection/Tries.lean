/-
What becomes of the fragments of a unit.

Each fragment is kept and then tried once, in the order of the fragments, whatever
became of those before it.  `Tries` is one run of this: it gives for each fragment the
datagram it went out in, or none if it failed.  Keeping does not meddle with sending,
so after the run the stores are as if all fragments had been kept first.

What a unit's sender is told is read off the run.
-/
import Mathlib.Data.List.ReduceOption
import Framecast.Proofs.Connection.Sending
import Framecast.Proofs.Packet.Fragments

namespace Framecast.Link

/-- The fragments are kept and tried, one after another.  Of each that went out, the
datagram is noted. -/
inductive Tries : Link → List Packet → List (Option Bytes) → Link → Prop
  | done (l : Link) : Tries l [] [] l
  | sent {l m k : Link} {p : Packet} {d : Bytes} {rest : List Packet} {fates : List (Option Bytes)}
      (hsend : sendPacket p (keep p l) = (.ok (), m)) (hseals : Seals l.connection.key p d)
      (honward : (keep p l).Onward [d] m) (hrest : Tries m rest fates k) :
      Tries l (p :: rest) (some d :: fates) k
  | failed {l m k : Link} {p : Packet} {e : Failure} {rest : List Packet}
      {fates : List (Option Bytes)} (hsend : sendPacket p (keep p l) = (.error e, m))
      (honward : (keep p l).Onward [] m) (hrest : Tries m rest fates k) :
      Tries l (p :: rest) (none :: fates) k

/-- Keeps fragments one after another. -/
def keepAll (packets : List Packet) (l : Link) : Link :=
  packets.foldl (fun l p => keep p l) l

variable {l m k : Link} {p : Packet} {packets : List Packet} {out : List Bytes}
  {fates : List (Option Bytes)}

/-! ### Keeping and sending -/

theorem network_keepAll (packets : List Packet) (l : Link) :
    (keepAll packets l).network = l.network := by
  induction packets generalizing l with
  | nil => rfl
  | cons p rest ih => exact ih (keep p l)

theorem onward_keep (h : l.Onward out m) (p : Packet) : (keep p l).Onward out (keep p m) where
  network := h.network
  same := by
    simp only [keep, update]
    rw [h.same]

theorem onward_keepAll (h : l.Onward out m) (packets : List Packet) :
    (keepAll packets l).Onward out (keepAll packets m) := by
  induction packets generalizing l m with
  | nil => exact h
  | cons p rest ih => exact ih (onward_keep h p)

/-- **A run sends what it notes, and leaves the connection as keeping does.** -/
theorem Tries.onward (h : Tries l packets fates m) :
    (keepAll packets l).Onward fates.reduceOption m := by
  induction h with
  | done l => exact .refl l
  | sent hsend hseals honward hrest ih =>
      rw [List.reduceOption_cons_of_some]
      exact (onward_keepAll honward _).trans ih
  | failed hsend honward hrest ih =>
      rw [List.reduceOption_cons_of_none]
      exact (onward_keepAll honward _).trans ih

/-- Every datagram is the fragment it is noted for. -/
theorem Tries.seals (h : Tries l packets fates m) :
    List.Forall₂ (fun p fate => ∀ d ∈ fate, Seals l.connection.key p d) packets fates := by
  induction h with
  | done l => exact .nil
  | sent hsend hseals honward hrest ih =>
      rw [honward.key_eq] at ih
      refine .cons (fun d hd => ?_) ih
      rw [Option.mem_some_iff] at hd
      rw [← hd]
      exact hseals
  | failed hsend honward hrest ih =>
      rw [honward.key_eq] at ih
      exact .cons (fun d hd => by cases hd) ih

/-- Sending all fragments is such a run, and its result the number of those that went
out. -/
theorem tries_sendAll (packets : List Packet) (hopen : l.isClosed = false)
    (hsize : ∀ p ∈ packets, p.size ≤ Packet.maxSize) :
    ∃ fates, Tries l packets fates (sendAll packets l).2 ∧
      (sendAll packets l).1 = fates.reduceOption.length := by
  induction packets generalizing l with
  | nil => exact ⟨[], .done l, rfl⟩
  | cons p rest ih =>
      have hrest : ∀ q ∈ rest, q.size ≤ Packet.maxSize := fun q hq =>
        hsize q (List.mem_cons_of_mem p hq)
      rcases sendPacket_cases (l := keep p l) hopen (hsize p (List.mem_cons_self ..)) with
        ⟨d, m, hsend, hseals, honward⟩ | ⟨e, m, hsend, honward⟩
      · obtain ⟨fates, htries, hcount⟩ := ih (honward.isClosed_eq.trans hopen) hrest
        refine ⟨some d :: fates, ?_, ?_⟩
        · rw [sendAll, hsend]
          exact .sent hsend hseals honward htries
        · rw [sendAll, hsend, List.reduceOption_cons_of_some, List.length_cons, ← hcount]
      · obtain ⟨fates, htries, hcount⟩ := ih (honward.isClosed_eq.trans hopen) hrest
        refine ⟨none :: fates, ?_, ?_⟩
        · rw [sendAll, hsend]
          exact .failed hsend honward htries
        · rw [sendAll, hsend, List.reduceOption_cons_of_none, ← hcount]

/-- In a world that is ready every fragment goes out. -/
theorem Tries.of_ready (h : Tries l packets fates m) (hopen : l.isClosed = false)
    (hsize : ∀ p ∈ packets, p.size ≤ Packet.maxSize) (hready : l.network.Ready packets.length) :
    ∃ datagrams : List Bytes, fates = datagrams.map some := by
  induction h with
  | done l => exact ⟨[], rfl⟩
  | @sent l m k p d rest fates hsend hseals honward hrest ih =>
      obtain ⟨m', hsend', hready'⟩ := sendPacket_of_ready (l := keep p l) hopen
        (hsize p (List.mem_cons_self ..)) hready
      rw [hsend] at hsend'
      cases hsend'
      obtain ⟨datagrams, hall⟩ := ih (honward.isClosed_eq.trans hopen)
        (fun q hq => hsize q (List.mem_cons_of_mem p hq)) hready'
      exact ⟨d :: datagrams, by rw [hall, List.map_cons]⟩
  | @failed l m k p e rest fates hsend honward hrest ih =>
      obtain ⟨m', hsend', hready'⟩ := sendPacket_of_ready (l := keep p l) hopen
        (hsize p (List.mem_cons_self ..)) hready
      rw [hsend] at hsend'
      cases hsend'

/-! ### A unit -/

section Unit

variable {channel : Channel} {id : Int32} {payload : Bytes}

/-- Every fragment fits a packet. -/
theorem size_le_of_mem_fragments
    (h : p ∈ fragments channel id payload Packet.maxPayload) : p.size ≤ Packet.maxSize := by
  obtain ⟨i, -, rfl⟩ := mem_fragments.mp h
  have hpiece := length_piece_le payload Packet.maxPayload i
  have hmax : max Packet.maxPayload 1 = Packet.maxPayload := rfl
  rw [hmax] at hpiece
  exact Nat.add_le_add_left hpiece Packet.headerSize

/-- A unit that is not refused is told by the number of its fragments that went out. -/
theorem sendUnit_of_checkUnit (hopen : l.isClosed = false)
    (hcheck : checkUnit l.connection.stores channel payload.length = .ok ()) :
    sendUnit channel payload id l =
      (if (sendAll (fragments channel id payload Packet.maxPayload) l).1 =
          fragmentCount payload.length Packet.maxPayload then .ok ()
        else .error (.partialSend (sendAll (fragments channel id payload Packet.maxPayload) l).1
          (fragmentCount payload.length Packet.maxPayload)),
        (sendAll (fragments channel id payload Packet.maxPayload) l).2) := by
  have hread : Action.read (fun l : Link => l.connection.stores) l =
      (.ok l.connection.stores, l) := rfl
  have hpass : Action.ofExcept
      (checkUnit l.connection.stores channel payload.length) l = (.ok (), l) := by
    rw [hcheck]
    rfl
  unfold sendUnit
  rw [Action.bind_of_ok (ensureOpen_of_open hopen), Action.bind_of_ok hread,
    Action.bind_of_ok hpass]
  refine (Action.bind_of_ok rfl).trans ?_
  rw [length_fragments]
  split <;> rfl

/-- Sending all fragments leaves the connection as keeping them does, but for the pacer and
the counters. -/
theorem onward_sendAll (packets : List Packet) (l : Link) :
    ∃ out, (keepAll packets l).Onward out (sendAll packets l).2 := by
  induction packets generalizing l with
  | nil => exact ⟨[], .refl l⟩
  | cons p rest ih =>
      obtain ⟨out, hfirst⟩ := onward_sendPacket p (keep p l)
      obtain ⟨later, hrest⟩ := ih (sendPacket p (keep p l)).2
      refine ⟨out ++ later, ?_⟩
      have hall := (onward_keepAll hfirst rest).trans hrest
      rw [sendAll]
      cases hsend : sendPacket p (keep p l) with
      | mk r m =>
          rw [hsend] at hall
          cases r <;> exact hall

/-- A unit that is refused leaves everything as it was. -/
theorem sendUnit_of_refused
    (h : l.isClosed = true ∨
      ∃ e, checkUnit l.connection.stores channel payload.length = .error e) :
    (sendUnit channel payload id l).2 = l := by
  by_cases hclosed : l.isClosed = true
  · unfold sendUnit
    rw [Action.bind_of_error (ensureOpen_of_closed hclosed)]
  · rcases h with h | ⟨e, he⟩
    · exact absurd h hclosed
    · have hread : Action.read (fun l : Link => l.connection.stores) l =
          (.ok l.connection.stores, l) := rfl
      have hstop : Action.ofExcept
          (checkUnit l.connection.stores channel payload.length) l = (.error e, l) := by
        rw [he]
        rfl
      unfold sendUnit
      rw [Action.bind_of_ok (ensureOpen_of_open (by simpa using hclosed)),
        Action.bind_of_ok hread, Action.bind_of_error hstop]

/-- Sending a unit leaves the connection as keeping its fragments does, or none of them,
but for the pacer and the counters. -/
theorem onward_sendUnit (channel : Channel) (payload : Bytes) (id : Int32) (l : Link) :
    ∃ packets out, (∀ q ∈ packets, q.channel = channel ∧ q.id = id) ∧
      (keepAll packets l).Onward out (sendUnit channel payload id l).2 := by
  have hrefused (h : (sendUnit channel payload id l).2 = l) :
      ∃ packets out, (∀ q ∈ packets, q.channel = channel ∧ q.id = id) ∧
        (keepAll packets l).Onward out (sendUnit channel payload id l).2 := by
    rw [h]
    exact ⟨[], [], fun q hq => (List.not_mem_nil hq).elim, .refl l⟩
  by_cases hclosed : l.isClosed = true
  · exact hrefused (sendUnit_of_refused (Or.inl hclosed))
  · have hopen : l.isClosed = false := by simpa using hclosed
    cases hcheck : checkUnit l.connection.stores channel payload.length with
    | error e => exact hrefused (sendUnit_of_refused (Or.inr ⟨e, hcheck⟩))
    | ok _ =>
        obtain ⟨out, hall⟩ := onward_sendAll (fragments channel id payload Packet.maxPayload) l
        refine ⟨fragments channel id payload Packet.maxPayload, out, fun q hq => ?_, ?_⟩
        · obtain ⟨i, -, rfl⟩ := mem_fragments.mp hq
          exact ⟨rfl, rfl⟩
        · rw [sendUnit_of_checkUnit hopen hcheck]
          exact hall

end Unit

end Framecast.Link
