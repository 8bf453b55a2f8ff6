/-
Which control messages a configuration lets through.

A control message is one fragment, and it is measured against the store of its channel if
there is one.  The configuration bounds that store from above, so that a message never needs
a second fragment, but not from below.  So the messages that pass are those of at most
`messageLimit` bytes: every one that fits a packet as long as the store is made for whole
packets, or there is none, and fewer for every byte that the store is smaller.
-/
import Framecast.Control
import Framecast.Proofs.Connection.Tries
import Framecast.Proofs.Control
import Framecast.Proofs.Reception.Agreement

namespace Framecast

open Framecast.Configuration (Retention checkStores)
open Receiver (Sendable)

namespace Configuration

/-- The check bounds the store of the message channel by what one packet carries. -/
theorem maxUnit_le_of_checkStores {seen : List Channel} {list : List Retention}
    (h : checkStores seen list = .ok ()) :
    ∀ r ∈ list, r.channel = .message → r.maxUnit ≤ Packet.maxPayload := by
  induction list generalizing seen with
  | nil =>
      intro r hr
      cases hr
  | cons first rest ih =>
      intro r hr hmessage
      rcases List.mem_cons.mp hr with rfl | hrest
      · rw [checkStores] at h
        split at h
        · cases h
        · split at h
          · cases h
          · split at h
            · cases h
            · rename_i hbound
              exact Nat.le_of_not_lt fun hlarge => hbound ⟨hmessage, hlarge⟩
      · exact ih (checkStores_tail h) r hrest hmessage

end Configuration

namespace Link

variable {l : Link} {m : Control}

/-- A message takes one fragment exactly if one packet carries it. -/
theorem fragmentCount_le_one_iff (size : Nat) :
    fragmentCount size Packet.maxPayload ≤ 1 ↔ size ≤ Packet.maxPayload := by
  have hpayload : Packet.maxPayload = 1285 := rfl
  have hmax : max 1285 1 = 1285 := rfl
  rw [hpayload, fragmentCount, hmax]
  split <;> omega

/-- A message passes if one packet carries it and the store of its channel is made for it. -/
theorem sendable_message_iff (size : Nat) :
    Sendable l .message size ↔
      size ≤ Packet.maxPayload ∧
        ∀ store, l.stores.get? .message = some store → size ≤ store.maxUnit := by
  rw [Receiver.sendable_iff]
  unfold unitLimits
  cases hget : l.connection.stores.get? .message with
  | none =>
      dsimp only
      rw [if_pos rfl, fragmentCount_le_one_iff]
      refine and_congr_right fun h => iff_of_true h fun store hstore => ?_
      cases hstore
  | some kept =>
      dsimp only
      rw [if_pos rfl, fragmentCount_le_one_iff]
      refine and_congr_right fun _ => ⟨fun h store hstore => ?_, fun h => h kept rfl⟩
      cases hstore
      exact h

/-- The message is refused for its size. -/
def Refuses (l : Link) (m : Control) : Prop :=
  ∃ size count most limit,
    (sendControl m l).1 = .error (.payloadTooLarge .message size count most limit)

/-- On an open connection the messages that do not pass are those that are refused. -/
theorem refuses_iff (hopen : l.isClosed = false) :
    l.Refuses m ↔ ¬ Sendable l .message m.encode.length := by
  let numbered := l.update fun c => { c with nextMessage := c.nextMessage + 1 }
  have hsend : sendControl m l = sendUnit .message m.encode l.connection.nextMessage numbered := rfl
  have hstores : numbered.connection.stores = l.connection.stores := rfl
  have hstill : numbered.isClosed = false := hopen
  unfold Refuses Sendable
  rw [hsend, ← hstores]
  cases hcheck : checkUnit numbered.connection.stores .message m.encode.length with
  | ok u =>
      refine iff_of_false ?_ (not_not_intro rfl)
      rintro ⟨size, count, most, limit, h⟩
      rw [sendUnit_of_checkUnit hstill hcheck] at h
      dsimp only at h
      split at h <;> cases h
  | error e =>
      refine iff_of_true ?_ fun h => nomatch h
      have hread : Action.read (fun l : Link => l.connection.stores) numbered =
          (.ok numbered.connection.stores, numbered) := rfl
      have hstop : Action.ofExcept
          (checkUnit numbered.connection.stores .message m.encode.length) numbered =
            (.error e, numbered) := by
        rw [hcheck]
        rfl
      unfold sendUnit
      rw [Action.bind_of_ok (ensureOpen_of_open hstill), Action.bind_of_ok hread,
        Action.bind_of_error hstop]
      unfold checkUnit at hcheck
      dsimp only at hcheck
      split at hcheck
      · cases hcheck
        exact ⟨_, _, _, _, rfl⟩
      · cases hcheck

end Link

namespace Node

/-- The most bytes of a message that passes under these stores. -/
def messageLimit (retention : List Retention) : Nat :=
  ((retention.find? fun r => r.channel = .message).map Retention.maxUnit).getD Packet.maxPayload

/-- Every request for a fragment and all settings pass, and of the messages with a body those
whose body fits a packet. -/
structure Speaks (l : Link) : Prop where
  missing (channel : Channel) (id : Int32) (index : UInt16) :
    Sendable l .message (Control.missing channel id index).encode.length
  settings (wanted : Settings) : Sendable l .message (Control.settings wanted).encode.length
  body (kind : BodyKind) (bytes : Bytes) :
    Sendable l .message (Control.body kind bytes).encode.length ↔ bytes.length ≤ Control.maxBody

/-- A node lets everything through that the limit allows. -/
theorem speaks_iff_of_limit {l : Link} {limit : Nat} (hle : limit ≤ Packet.maxPayload)
    (h : ∀ m : Control, Sendable l .message m.encode.length ↔ m.size ≤ limit) :
    Speaks l ↔ limit = Packet.maxPayload := by
  have hpayload : Packet.maxPayload = 1285 := rfl
  have hbody : Control.maxBody = 1280 := rfl
  constructor
  · intro hspeaks
    -- The largest body that fits a packet makes the largest message that does.
    have hlargest := (hspeaks.body .cursor (List.replicate Control.maxBody 0)).mpr
      (List.length_replicate ..).le
    rw [h, Control.size, List.length_replicate] at hlargest
    omega
  · intro hlimit
    refine ⟨fun channel id index => ?_, fun wanted => ?_, fun kind bytes => ?_⟩
    · rw [h, Control.size]
      omega
    · rw [h, Control.size]
      omega
    · rw [h, Control.size]
      omega

/-- Registering stores leaves a connection open. -/
theorem isClosed_registerAll (list : List Retention) :
    (registerAll list).Leaves Link.isClosed := by
  induction list with
  | nil => exact fun _ => rfl
  | cons r rest ih =>
      refine Action.Leaves.bind (fun l => ?_) fun _ => ih
      unfold Link.register
      split <;> rfl

theorem isClosed_of_registerAll {list : List Retention} {l sender : Link}
    (h : registerAll list l = (.ok (), sender)) : sender.isClosed = l.isClosed := by
  have hleaves := isClosed_registerAll list l
  rwa [h] at hleaves

/-- On stores registered under a check, the limit is what decides. -/
theorem sendable_iff_le_limit {list : List Retention} {l : Link}
    (hcheck : checkStores [] list = .ok ())
    (hall : ∀ r ∈ list, l.stores.get? r.channel = some (Store.empty r.maxUnit r.units))
    (hother : ∀ c, (∀ r ∈ list, r.channel ≠ c) → l.stores.get? c = none) :
    messageLimit list ≤ Packet.maxPayload ∧
      (∀ size, Sendable l .message size ↔ size ≤ messageLimit list) ∧
      (messageLimit list = Packet.maxPayload ↔
        ∀ r ∈ list, r.channel = .message → r.maxUnit = Packet.maxPayload) := by
  unfold messageLimit
  cases hfind : list.find? fun r => r.channel = .message with
  | none =>
      have hnot (r : Retention) (hr : r ∈ list) : r.channel ≠ .message := by
        simpa using List.find?_eq_none.mp hfind r hr
      have hnone := hother .message hnot
      refine ⟨le_refl _, fun size => ?_, iff_of_true rfl fun r hr hc => absurd hc (hnot r hr)⟩
      rw [Link.sendable_message_iff]
      exact and_iff_left fun store hstore => nomatch hnone ▸ hstore
  | some r =>
      have hr := List.mem_of_find?_eq_some hfind
      have hmessage : r.channel = .message := by simpa using List.find?_some hfind
      have hbound := Configuration.maxUnit_le_of_checkStores hcheck r hr hmessage
      have hstore := hall r hr
      rw [hmessage] at hstore
      -- There is one store for messages, so every entry for them says the same.
      have hsame (q : Retention) (hq : q ∈ list) (hc : q.channel = .message) :
          q.maxUnit = r.maxUnit := by
        have hother := hall q hq
        rw [hc, hstore, Option.some.injEq] at hother
        exact (congrArg Store.maxUnit hother).symm
      refine ⟨hbound, fun size => ?_, fun h q hq hc => (hsame q hq hc).trans h,
        fun h => h r hr hmessage⟩
      rw [Link.sendable_message_iff]
      constructor
      · rintro ⟨-, hsize⟩
        exact hsize _ hstore
      · intro hsize
        refine ⟨le_trans hsize hbound, fun store hget => ?_⟩
        rw [hstore, Option.some.injEq] at hget
        rw [← hget]
        exact hsize

/-- **A configuration lets all control messages through exactly if its store for them, if it
has one, is made for whole packets.**  Whatever configuration was resolved, its stores can be
registered on a connection that was just set up exactly if their tables can be laid out.  Once they
are registered, the connection is open, and

  * a message passes the check of its size exactly if it has at most `messageLimit` bytes,
    which is never more than one packet carries, and is refused for its size otherwise;
  * every request, all settings and exactly the bodies that fit a packet pass, if and only if
    no store for messages is made for less than a packet carries. -/
theorem messages_pass_iff {input : Configuration.Input} {config : Configuration}
    (hconfig : input.resolve = .ok config) (role : Role) (peer : Endpoint) (now : Int)
    (network : Network) :
    let opened : Link := { connection := .established role peer config.meeting now, network }
    ((∃ sender, registerAll config.retention opened = (.ok (), sender)) ↔ config.Storable) ∧
      ∀ sender, registerAll config.retention opened = (.ok (), sender) →
        sender.isClosed = false ∧ messageLimit config.retention ≤ Packet.maxPayload ∧
        (∀ m : Control,
          (Sendable sender .message m.encode.length ↔ m.size ≤ messageLimit config.retention) ∧
            (sender.Refuses m ↔ messageLimit config.retention < m.size)) ∧
        (Speaks sender ↔
          ∀ r ∈ config.retention, r.channel = .message → r.maxUnit = Packet.maxPayload) := by
  intro opened
  have hbare : opened.stores = {} := rfl
  refine ⟨registerAll_ok_iff hconfig hbare, fun sender hrun => ?_⟩
  obtain ⟨hall, hother⟩ := stores_of_registerAll hconfig hbare hrun
  have hopen : sender.isClosed = false := isClosed_of_registerAll hrun
  obtain ⟨hle, hpass, hwhole⟩ :=
    sendable_iff_le_limit (Configuration.checkStores_of_resolve hconfig) hall hother
  have hmessage (m : Control) :
      Sendable sender .message m.encode.length ↔ m.size ≤ messageLimit config.retention := by
    rw [hpass, Control.length_encode]
  refine ⟨hopen, hle, fun m => ⟨hmessage m, ?_⟩, ?_⟩
  · rw [Link.refuses_iff hopen, hmessage, Nat.not_le]
  · exact (speaks_iff_of_limit hle hmessage).trans hwhole

/-- A configuration whose store for messages is made for seven bytes. -/
def tightStore : Configuration.Input :=
  { Receiver.onlyKey with retention := some [{ channel := .message, maxUnit := 7, units := 4 }] }

/-- With its default stores a node sends every request. -/
theorem default_node_speaks :
    ∃ config sender, Receiver.onlyKey.resolve = .ok config ∧
      registerAll config.retention
          { connection := Connection.established .client (.v4 .unspecified 0) config.meeting 0
            network := {} } = (.ok (), sender) ∧ Speaks sender := by
  obtain ⟨config, hconfig⟩ : ∃ config, Receiver.onlyKey.resolve = .ok config := ⟨_, rfl⟩
  have hdefaults : config.retention = Configuration.Retention.defaults :=
    Configuration.retention_of_resolve hconfig rfl
  obtain ⟨hregisters, hpass⟩ := messages_pass_iff hconfig .client (.v4 .unspecified 0) 0 {}
  obtain ⟨sender, hrun⟩ := hregisters.mpr <| by
    rw [Configuration.Storable, hdefaults]
    decide
  obtain ⟨-, -, -, hspeaks⟩ := hpass sender hrun
  refine ⟨config, sender, hconfig, hrun, hspeaks.mpr ?_⟩
  rw [hdefaults]
  decide

/-- **A node can be configured so that it refuses every request and all settings.** -/
theorem tight_store_silences_node :
    ∃ config sender, tightStore.resolve = .ok config ∧
      registerAll config.retention
          { connection := Connection.established .client (.v4 .unspecified 0) config.meeting 0
            network := {} } = (.ok (), sender) ∧ sender.isClosed = false ∧
      (∀ channel id index, sender.Refuses (.missing channel id index)) ∧
      ∀ wanted, sender.Refuses (.settings wanted) := by
  obtain ⟨config, hconfig⟩ : ∃ config, tightStore.resolve = .ok config := ⟨_, rfl⟩
  have htight : config.retention = [{ channel := .message, maxUnit := 7, units := 4 }] :=
    Configuration.retention_of_resolve hconfig rfl
  obtain ⟨sender, hrun⟩ := (registerAll_ok_iff hconfig
    (l := ⟨.established .client (.v4 .unspecified 0) config.meeting 0, {}⟩) rfl).mpr <| by
      rw [Configuration.Storable, htight]
      decide
  obtain ⟨hall, hother⟩ := stores_of_registerAll hconfig rfl hrun
  have hopen : sender.isClosed = false := isClosed_of_registerAll hrun
  obtain ⟨-, hpass, -⟩ :=
    sendable_iff_le_limit (Configuration.checkStores_of_resolve hconfig) hall hother
  have hlimit : messageLimit config.retention = 7 := by
    rw [htight]
    rfl
  have hrefuses (m : Control) (hsize : 7 < m.size) : sender.Refuses m := by
    rw [Link.refuses_iff hopen, hpass, hlimit, Control.length_encode]
    exact Nat.not_le_of_lt hsize
  refine ⟨config, sender, hconfig, hrun, hopen, fun channel id index => hrefuses _ ?_,
    fun wanted => hrefuses _ ?_⟩
  · rw [Control.size]
    decide
  · rw [Control.size]
    decide

end Node

end Framecast
