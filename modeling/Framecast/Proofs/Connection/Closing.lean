/-
Closing is final.

Every way to the network goes past the same check, whether a packet is sent as it is, as
a fragment, in a control message or in answer to a request, and a read passes it before
it looks at anything else.  So on a closed connection each use comes to its end there,
and nothing that a connection is used for opens it again.

A request is looked up before its fragment is sent, so what it is told on a closed
connection is what became of the look-up, or that the connection is closed.
-/
import Framecast.Proofs.Connection.Uses

namespace Framecast.Link

variable {l : Link}

/-! ### What is refused -/

theorem isClosed_close (l : Link) : l.close.isClosed = true := rfl

theorem sendUnit_of_closed (channel : Channel) (payload : Bytes) (id : Int32)
    (h : l.isClosed = true) : sendUnit channel payload id l = (.error .closed, l) := by
  unfold sendUnit
  exact Action.bind_of_error (ensureOpen_of_closed h)

/-- A control message that is refused uses up its number all the same. -/
theorem sendControl_of_closed (m : Control) (h : l.isClosed = true) :
    sendControl m l =
      (.error .closed, l.update fun c => { c with nextMessage := c.nextMessage + 1 }) :=
  sendUnit_of_closed .message m.encode l.connection.nextMessage h

/-- A request is told of its look-up if that fails. -/
theorem resend_of_closed (channel : Channel) (id : Int32) (index : UInt16)
    (h : l.isClosed = true) :
    (resend channel id index l).1 =
        (l.stores.find channel id index).1.bind (fun _ => .error .closed) ∧
      (resend channel id index l).2.isClosed = true ∧
      (resend channel id index l).2.network = l.network := by
  rcases resend_cases channel id index l with ⟨p, hfind, hsend⟩ | ⟨hfind, hsend⟩ | ⟨hfind, hsend⟩
  · have hclosed : ((l.lookUp channel id index).count fun c =>
        { c with resent := c.resent + 1 }).isClosed = true := h
    rw [hfind, hsend, sendPacket_of_closed p hclosed]
    exact ⟨rfl, h, rfl⟩
  · rw [hfind, hsend]
    exact ⟨rfl, h, rfl⟩
  · rw [hfind, hsend]
    exact ⟨rfl, h, rfl⟩

/-! ### Uses of a closed connection -/

/-- What becomes of a network that the connection does nothing to. -/
def Use.outside : Use → Network → Network
  | elsewhere network, _ => network
  | _, n => n

/-- A closed connection stays closed, and does nothing to the network. -/
theorem Use.run_of_closed (use : Use) (h : l.isClosed = true) :
    (use.run l).isClosed = true ∧ (use.run l).network = use.outside l.network := by
  cases use with
  | send channel payload id =>
      rw [Use.run, sendUnit_of_closed channel payload id h]
      exact ⟨h, rfl⟩
  | control m =>
      rw [Use.run, sendControl_of_closed m h]
      exact ⟨h, rfl⟩
  | packet p =>
      rw [Use.run, sendPacket_of_closed p h]
      exact ⟨h, rfl⟩
  | resend channel id index => exact (resend_of_closed channel id index h).2
  | register channel maxUnit units =>
      rw [Use.run]
      unfold Link.register
      split <;> exact ⟨h, rfl⟩
  | settings burst fec =>
      rw [Use.run]
      unfold applySettings
      split <;> exact ⟨h, rfl⟩
  | read =>
      rw [Use.run, readPacket_of_closed h]
      exact ⟨h, rfl⟩
  | release => exact ⟨h, rfl⟩
  | close => exact ⟨rfl, rfl⟩
  | elsewhere network => exact ⟨h, rfl⟩

/-- So it does over any number of uses. -/
theorem runAll_of_closed (uses : List Use) (h : l.isClosed = true) :
    (Use.runAll uses l).isClosed = true ∧
      (Use.runAll uses l).network = uses.foldl (fun n use => use.outside n) l.network := by
  induction uses generalizing l with
  | nil => exact ⟨h, rfl⟩
  | cons use rest ih =>
      obtain ⟨hclosed, hnetwork⟩ := use.run_of_closed h
      obtain ⟨hlast, hrest⟩ := ih hclosed
      refine ⟨hlast, ?_⟩
      rw [List.foldl_cons, ← hnetwork]
      exact hrest

/--
**Closing is final.**  Close a connection in any state, and use it on in any way.  Then
it is still closed, and the network is as if it had not been used since: its trace, its
arrivals and its clock are those at the closing, but for what happened elsewhere.

At this point

* a unit, a packet and a control message are refused because the connection is closed,
  and nothing is kept: only the number of the message is used up;
* a read is refused for the same reason, and changes nothing;
* a request for a fragment is told that its look-up failed, and otherwise that the
  connection is closed.
-/
theorem closing_is_final (l : Link) (uses : List Use) :
    let m := Use.runAll uses l.close
    m.connection.phase = .closed ∧
      m.network = uses.foldl (fun n use => use.outside n) l.network ∧
      (∀ channel payload id, sendUnit channel payload id m = (.error .closed, m)) ∧
      (∀ p, sendPacket p m = (.error .closed, m)) ∧
      (∀ message, sendControl message m =
        (.error .closed, m.update fun c => { c with nextMessage := c.nextMessage + 1 })) ∧
      readPacket m = (.error .closed, m) ∧
      ∀ channel id index, (resend channel id index m).1 =
        (m.stores.find channel id index).1.bind fun _ => .error .closed := by
  intro m
  obtain ⟨hclosed, hnetwork⟩ := runAll_of_closed uses l.isClosed_close
  change m.isClosed = true at hclosed
  exact ⟨of_decide_eq_true hclosed, hnetwork,
    fun channel payload id => sendUnit_of_closed channel payload id hclosed,
    fun p => sendPacket_of_closed p hclosed,
    fun message => sendControl_of_closed message hclosed,
    readPacket_of_closed hclosed,
    fun channel id index => (resend_of_closed channel id index hclosed).1⟩

end Framecast.Link
