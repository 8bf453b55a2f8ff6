/-
The uses of a connection.

`Use` lists what a program can do with a connection that stands; whatever else happens to
the network in between is one of them.  A connection that is used on and on has stores
that are in order, for each use changes them in one of the ways of `Stores.Change`: only
sending a unit keeps fragments, and only those of this unit.
-/
import Framecast.Connection.Receive
import Framecast.Connection.Setup
import Framecast.Proofs.Connection.Reading
import Framecast.Proofs.Connection.Tries
import Framecast.Proofs.Retention.Kept

namespace Framecast.Link

/-- What a program does with a connection. -/
inductive Use where
  | send (channel : Channel) (payload : Bytes) (id : Int32)
  | control (m : Control)
  /-- A packet is sent as it is. -/
  | packet (p : Packet)
  | resend (channel : Channel) (id : Int32) (index : UInt16)
  | register (channel : Channel) (maxUnit units : Nat)
  | settings (burst : UInt32) (fec : UInt64)
  | read
  | release
  | close
  /-- The network comes to another state. -/
  | elsewhere (network : Network)

/-- The link after a use. -/
def Use.run : Use → Link → Link
  | send channel payload id, l => (sendUnit channel payload id l).2
  | control m, l => (sendControl m l).2
  | packet p, l => (sendPacket p l).2
  | resend channel id index, l => (Link.resend channel id index l).2
  | register channel maxUnit units, l => (Link.register channel maxUnit units l).2
  | settings burst fec, l => (applySettings burst fec l).2
  | read, l => (readPacket l).2
  | release, l => l.release
  | close, l => l.close
  | elsewhere network, l => { l with network }

/-- The link after some uses in a row. -/
def Use.runAll (uses : List Use) (l : Link) : Link :=
  uses.foldl (fun l use => use.run l) l

/-- The unit that a use sends. -/
def Use.unit? : Use → Link → Option (Channel × Int32)
  | send channel _ id, _ => some (channel, id)
  | control _, l => some (.message, l.connection.nextMessage)
  | _, _ => none

/-- A connection that was set up and has been used since. -/
inductive Standing : Link → Prop
  | new (role : Role) (peer : Endpoint) (meeting : Configuration.Meeting) (now : Int)
      (network : Network) :
      Standing { connection := .established role peer meeting now, network }
  | use {l : Link} (h : Standing l) (use : Use) : Standing (use.run l)

variable {l m : Link} {channel : Channel} {id : Int32} {payload : Bytes}

/-! ### Uses that leave the stores alone -/

theorem leaves_ensureOpen : ensureOpen.Leaves stores := by
  intro l
  unfold ensureOpen
  split <;> rfl

theorem leaves_sendPacket (p : Packet) : (sendPacket p).Leaves stores := by
  intro l
  obtain ⟨out, h⟩ := onward_sendPacket p l
  exact h.stores_eq

theorem leaves_receiveOne : receiveOne.Leaves stores :=
  leaves_receiveOne_of (fun _ _ => rfl) fun _ _ => rfl

theorem leaves_readPacket : readPacket.Leaves stores := by
  refine leaves_ensureOpen.bind fun _ => Action.Leaves.bind (fun _ => rfl) fun leased => ?_
  split
  · exact fun _ => rfl
  · exact leaves_receiveOne.bind fun p => Action.Leaves.bind (fun _ => rfl) fun _ _ => rfl

theorem leaves_applySettings (burst : UInt32) (fec : UInt64) :
    (applySettings burst fec).Leaves stores := by
  intro l
  unfold applySettings
  split <;> rfl

/-! ### A request for a fragment -/

/-- The link after a look-up. -/
def lookUp (channel : Channel) (id : Int32) (index : UInt16) (l : Link) : Link :=
  l.update fun c => { c with stores := (l.stores.find channel id index).2 }

/-- **What a request can come to:** its fragment is found and sent, or it is no longer
kept, or nothing is kept of the channel at all. -/
theorem resend_cases (channel : Channel) (id : Int32) (index : UInt16) (l : Link) :
    (∃ p, (l.stores.find channel id index).1 = .ok p ∧
        resend channel id index l = sendPacket p ((l.lookUp channel id index).count fun c =>
          { c with resent := c.resent + 1 })) ∨
      ((l.stores.find channel id index).1 = .error (.forgotten channel id index) ∧
        resend channel id index l = (.error (.forgotten channel id index),
          (l.lookUp channel id index).count fun c => { c with forgotten := c.forgotten + 1 })) ∨
      ((l.stores.find channel id index).1 = .error (.notRetained channel) ∧
        resend channel id index l =
          (.error (.notRetained channel), l.lookUp channel id index)) := by
  have hstores : (l.stores.find channel id index) = l.connection.stores.find channel id index := rfl
  unfold resend lookUp
  rw [hstores]
  unfold Stores.find
  cases l.connection.stores.get? channel with
  | none => exact Or.inr (Or.inr ⟨rfl, rfl⟩)
  | some store =>
      dsimp only
      cases store.find? id index with
      | mk found store' =>
          cases found with
          | none => exact Or.inr (Or.inl ⟨rfl, rfl⟩)
          | some p => exact Or.inl ⟨p, rfl, rfl⟩

/-! ### What a use does to the stores -/

theorem stores_keepAll (packets : List Packet) (l : Link) :
    (keepAll packets l).stores = l.stores.insertAll packets := by
  induction packets generalizing l with
  | nil => rfl
  | cons p rest ih => exact ih (keep p l)

/-- Sending a unit keeps its fragments, unless it is refused. -/
theorem change_sendUnit (channel : Channel) (payload : Bytes) (id : Int32) (l : Link) :
    ∃ packets, (∀ q ∈ packets, q.channel = channel ∧ q.id = id) ∧
      l.stores.Change packets (sendUnit channel payload id l).2.stores := by
  obtain ⟨packets, out, hunit, honward⟩ := onward_sendUnit channel payload id l
  refine ⟨packets, hunit, ?_⟩
  have hstores : (sendUnit channel payload id l).2.stores = (keepAll packets l).stores :=
    honward.stores_eq
  rw [hstores, stores_keepAll]
  exact .keep packets

theorem change_resend (channel : Channel) (id : Int32) (index : UInt16) (l : Link) :
    (resend channel id index l).2.stores = (l.stores.find channel id index).2 := by
  rcases resend_cases channel id index l with ⟨p, -, hsend⟩ | ⟨-, hsend⟩ | ⟨-, hsend⟩
  · rw [hsend]
    exact leaves_sendPacket p _
  · rw [hsend]
    rfl
  · rw [hsend]
    rfl

theorem change_register (channel : Channel) (maxUnit units : Nat) (l : Link) :
    l.stores.Change [] (register channel maxUnit units l).2.stores := by
  unfold register
  split
  · exact .same l.stores
  · rename_i hregister
    exact .register hregister

/-- **What a use does to the stores:** the fragments it keeps are those of the unit it
sends. -/
theorem Use.change (use : Use) (l : Link) :
    ∃ packets, (∀ q ∈ packets, use.unit? l = some (q.channel, q.id)) ∧
      l.stores.Change packets (use.run l).stores := by
  have hnothing (h : (use.run l).stores = l.stores) :
      ∃ packets, (∀ q ∈ packets, use.unit? l = some (q.channel, q.id)) ∧
        l.stores.Change packets (use.run l).stores := by
    rw [h]
    exact ⟨[], fun q hq => (List.not_mem_nil hq).elim, .same l.stores⟩
  cases use with
  | send channel payload id =>
      obtain ⟨packets, hunit, hchange⟩ := change_sendUnit channel payload id l
      refine ⟨packets, fun q hq => ?_, hchange⟩
      rw [(hunit q hq).1, (hunit q hq).2]
      rfl
  | control m =>
      obtain ⟨packets, hunit, hchange⟩ := change_sendUnit .message m.encode
        l.connection.nextMessage
        (l.update fun c => { c with nextMessage := c.nextMessage + 1 })
      refine ⟨packets, fun q hq => ?_, hchange⟩
      rw [(hunit q hq).1, (hunit q hq).2]
      rfl
  | packet p => exact hnothing (leaves_sendPacket p l)
  | resend channel id index =>
      refine ⟨[], fun q hq => (List.not_mem_nil hq).elim, ?_⟩
      have hfind := change_resend channel id index l
      show l.stores.Change [] (Link.resend channel id index l).2.stores
      rw [hfind]
      exact .find channel id index
  | register channel maxUnit units =>
      exact ⟨[], fun q hq => (List.not_mem_nil hq).elim, change_register channel maxUnit units l⟩
  | settings burst fec => exact hnothing (leaves_applySettings burst fec l)
  | read => exact hnothing (leaves_readPacket l)
  | release => exact hnothing rfl
  | close => exact hnothing rfl
  | elsewhere network => exact hnothing rfl

/-- **The stores of a connection are in order,** whatever it was used for. -/
theorem Standing.sound (h : Standing l) : l.stores.Sound := by
  induction h with
  | new role peer meeting now network =>
      intro channel store hstore
      cases channel <;> cases hstore
  | @use l _ use ih =>
      obtain ⟨packets, -, hchange⟩ := use.change l
      exact ih.change hchange

end Framecast.Link
