/-
What a receiver hands on, and in which order.

A receiver takes packets in, ticks, and has a queue that its consumer takes frames from;
in between others may work on its link.  `Event` is any of these, and a run is a list of
events.  The loop that reads a link is such a run.  Whatever a run gives away is a
`record` of it: the frames offered to the queue, those that found room, those that the
consumer got, the packets kept, the calls made to an assembly.

The last of these makes a receiver accessible to what is known of assemblies: each of its
two assemblies is the result of a run of calls.  A frame is offered only after its unit
was handed on, and that finishes all units up to it.  So the units of one channel that
are offered only ever increase.
-/
import Framecast.Proofs.Assembly.Accounts
import Framecast.Proofs.Assembly.Record
import Framecast.Proofs.Reception.Agreement

namespace Framecast

namespace Receiver

open Assembly (Call)

/-! ### Runs -/

/-- What may happen to a receiver. -/
inductive Event where
  | packet (p : Packet)
  | tick (now : Int)
  /-- The consumer takes the oldest frame, if there is one. -/
  | consume
  /-- Something else is done to the link. -/
  | elsewhere (link : Link)

/-- What an event makes of a receiver. -/
def handle (r : Receiver) : Event → Receiver
  | .packet p => r.takePacket p
  | .tick now => r.tick now
  | .consume =>
    match r.frames.dequeue? with
    | some (_, frames) => { r with frames }
    | none => r
  | .elsewhere link => { r with link }

/-- A receiver after some events. -/
def after (r : Receiver) (events : List Event) : Receiver :=
  events.foldl handle r

/-- What the events of a run give, in order. -/
def record {α : Type} (f : Receiver → Event → List α) : Receiver → List Event → List α
  | _, [] => []
  | r, e :: rest => f r e ++ record f (r.handle e) rest

/-- The frame that an event offers to the queue. -/
def offers (r : Receiver) : Event → List Frame
  | .packet p =>
    if p.channel = .message then [] else
    ((assemble (r.assembly p.channel) p).1.map fun data =>
      { channel := p.channel, id := p.id, data }).toList
  | _ => []

/-- The frame that an event puts into the queue. -/
def enqueues (r : Receiver) (e : Event) : List Frame :=
  (r.offers e).filter fun f => (r.frames.enqueue? f).isSome

/-- The frame that the consumer gets by an event. -/
def gets (r : Receiver) : Event → List Frame
  | .consume => (r.frames.dequeue?.map Prod.fst).toList
  | _ => []

/-- The packet that an event brings and that is kept. -/
def keeps (r : Receiver) : Event → List Packet
  | .packet p =>
    if p.channel = .message then [] else
    match ((r.assembly p.channel).receive p).1 with
    | .stored | .completed => [p]
    | _ => []
  | _ => []

/-- The calls that an event makes to the assembly of a channel. -/
def calls (channel : Channel) (r : Receiver) : Event → List Call
  | .packet p =>
    if p.channel = channel then
      .receive p ::
        if ((r.assembly channel).receive p).1 = .completed then [.take p.id] else []
    else []
  | .tick now =>
    if r.reception.requestInterval ≤ Time.elapsed r.lastRound now then [.request now] else []
  | _ => []

theorem after_append (r : Receiver) (events later : List Event) :
    r.after (events ++ later) = (r.after events).after later :=
  List.foldl_append

theorem record_append {α : Type} (f : Receiver → Event → List α) (r : Receiver)
    (events later : List Event) :
    record f r (events ++ later) = record f r events ++ record f (r.after events) later := by
  induction events generalizing r with
  | nil => rfl
  | cons e rest ih =>
      show f r e ++ record f (r.handle e) (rest ++ later) = _
      rw [ih, ← List.append_assoc]
      rfl

theorem record_concat {α : Type} (f : Receiver → Event → List α) (r : Receiver)
    (events : List Event) (e : Event) :
    record f r (events ++ [e]) = record f r events ++ f (r.after events) e := by
  rw [record_append]
  simp [record]

/-! ### The loop -/

/-- A turn of the loop is a run of events. -/
theorem exists_events_turn (r : Receiver) : ∃ events, r.turn = r.after events := by
  unfold turn readOnce
  cases Link.readPacket r.link with
  | mk result link =>
      cases result with
      | ok read =>
          cases read with
          | some p => exact ⟨[.elsewhere link.release, .packet p, .tick _], rfl⟩
          | none => exact ⟨[.elsewhere link, .tick _], rfl⟩
      | error e => exact ⟨[.elsewhere _, .tick _], rfl⟩

theorem exists_events_turns (n : Nat) (r : Receiver) : ∃ events, turns n r = r.after events := by
  induction n generalizing r with
  | zero => exact ⟨[], rfl⟩
  | succ n ih =>
      obtain ⟨events, hevents⟩ := r.exists_events_turn
      obtain ⟨later, hlater⟩ := ih r.turn
      refine ⟨events ++ later, ?_⟩
      rw [after_append, ← hevents, ← hlater]
      rfl

/-- **The loop of a receiver is a run of events.** -/
theorem exists_events_run (r : Receiver) : ∃ events, r.run = r.after events := by
  unfold run
  split
  · exact ⟨[], rfl⟩
  · obtain ⟨events, hevents⟩ := exists_events_turns r.link.network.inbound.length r
    rw [hevents]
    refine ⟨events ++ [.elsewhere ((r.after events).link.close.count fun c =>
      { c with readTimeouts := c.readTimeouts + 1 }), .tick (r.after events).link.network.now], ?_⟩
    rw [after_append]
    rfl

/-! ### What an event does to the queue and to the assemblies -/

section Event

variable (r : Receiver)

@[simp] theorem frames_notify (notice : Notice) : (r.notify notice).frames = r.frames := by
  unfold notify
  split <;> rfl

@[simp] theorem assembly_notify (notice : Notice) (channel : Channel) :
    (r.notify notice).assembly channel = r.assembly channel := by
  unfold notify
  split <;> rfl

@[simp] theorem frames_countSkipped : r.countSkipped.frames = r.frames := by
  unfold countSkipped
  dsimp only
  split <;> rfl

@[simp] theorem assembly_countSkipped (channel : Channel) :
    r.countSkipped.assembly channel = r.assembly channel := by
  unfold countSkipped
  dsimp only
  split <;> rfl

@[simp] theorem frames_setAssembly (channel : Channel) (a : Assembly) :
    (r.setAssembly channel a).frames = r.frames := by
  cases channel <;> rfl

theorem assembly_setAssembly {channel other : Channel} (hchannel : channel ≠ .message)
    (hother : other ≠ .message) (a : Assembly) :
    (r.setAssembly channel a).assembly other = if channel = other then a else r.assembly other := by
  cases channel with
  | message => exact absurd rfl hchannel
  | video => cases other <;> rfl
  | audio =>
      cases other with
      | message => exact absurd rfl hother
      | video => rfl
      | audio => rfl

@[simp] theorem assembly_deliver (frame : Frame) (channel : Channel) :
    (r.deliver frame).assembly channel = r.assembly channel := by
  unfold deliver
  split <;> rfl

theorem frames_deliver (frame : Frame) :
    (r.deliver frame).frames = (r.frames.enqueue? frame).getD r.frames := by
  unfold deliver
  cases r.frames.enqueue? frame <;> rfl

theorem obey_rest (m : Control) (channel : Channel) :
    (r.obey m).frames = r.frames ∧ (r.obey m).assembly channel = r.assembly channel := by
  unfold obey
  split
  · exact ⟨rfl, rfl⟩
  · rw [frames_notify, assembly_notify]
    exact ⟨rfl, rfl⟩
  · rw [frames_notify, assembly_notify]
    exact ⟨rfl, rfl⟩

theorem adapt_rest (s : Statistics) (channel : Channel) :
    (r.adapt s).frames = r.frames ∧ (r.adapt s).assembly channel = r.assembly channel := by
  unfold adapt
  dsimp only
  rw [frames_notify, assembly_notify]
  exact ⟨rfl, rfl⟩

theorem checkPeriod_rest (now : Int) (channel : Channel) :
    (r.checkPeriod now).frames = r.frames ∧
      (r.checkPeriod now).assembly channel = r.assembly channel := by
  unfold checkPeriod
  split
  · exact ⟨rfl, rfl⟩
  · rename_i s meter _
    obtain ⟨hframes, hassembly⟩ :=
      adapt_rest ({ r with meter }.notify (.statistics s)) s channel
    dsimp only
    split
    · rw [hframes, hassembly, frames_notify, assembly_notify]
      exact ⟨rfl, rfl⟩
    · rw [frames_notify, assembly_notify]
      exact ⟨rfl, rfl⟩

theorem tick_rest (now : Int) (channel : Channel) :
    (r.tick now).frames = r.frames ∧
      (r.tick now).assembly channel =
        if r.reception.requestInterval ≤ Time.elapsed r.lastRound now then
          ((r.assembly channel).request now).2
        else r.assembly channel := by
  unfold tick checkMissing
  obtain ⟨hframes, hassembly⟩ := checkPeriod_rest
    (if r.reception.requestInterval ≤ Time.elapsed r.lastRound now then
      { r with lastRound := now }.requestMissing now else r) now channel
  rw [hframes, hassembly]
  split
  · cases channel <;> exact ⟨rfl, rfl⟩
  · exact ⟨rfl, rfl⟩

/-- A receiver after a media packet, before the frame that may have come of it is
handed on. -/
def absorb (p : Packet) : Receiver :=
  ({ r with meter := r.meter.countPacket p.payload.length }.setAssembly p.channel
    (assemble (r.assembly p.channel) p).2).countSkipped

theorem takePacket_media {p : Packet} (hmedia : p.channel ≠ .message) :
    r.takePacket p =
      match (assemble (r.assembly p.channel) p).1 with
      | some data => (r.absorb p).deliver { channel := p.channel, id := p.id, data }
      | none => r.absorb p := by
  unfold takePacket
  cases hchannel : p.channel with
  | message => exact absurd hchannel hmedia
  | video =>
      simp only [takeMedia, absorb, hchannel]
      rfl
  | audio =>
      simp only [takeMedia, absorb, hchannel]
      rfl

theorem frames_absorb (p : Packet) : (r.absorb p).frames = r.frames := by
  rw [absorb, frames_countSkipped, frames_setAssembly]

theorem assembly_absorb {p : Packet} (hmedia : p.channel ≠ .message) {channel : Channel}
    (hchannel : channel ≠ .message) :
    (r.absorb p).assembly channel =
      if p.channel = channel then (assemble (r.assembly p.channel) p).2
      else r.assembly channel := by
  rw [absorb, assembly_countSkipped, assembly_setAssembly _ hmedia hchannel]
  rfl

theorem takePacket_message {p : Packet} (hmessage : p.channel = .message) (channel : Channel) :
    (r.takePacket p).frames = r.frames ∧
      (r.takePacket p).assembly channel = r.assembly channel := by
  unfold takePacket
  rw [hmessage]
  dsimp only
  cases Control.decode? p.payload with
  | some m => exact obey_rest r m channel
  | none => exact ⟨rfl, rfl⟩

/-- What taking a fragment in does to an assembly: the call, and the unit is handed on
at once if the fragment completes it. -/
theorem assemble_snd (a : Assembly) (p : Packet) :
    (assemble a p).2 =
      a.run (.receive p :: if (a.receive p).1 = .completed then [.take p.id] else []) := by
  have hreceive : a.receive p = ((a.receive p).1, (a.receive p).2) := rfl
  unfold assemble
  rw [hreceive]
  cases hv : (a.receive p).1 with
  | completed =>
      simp only [if_true, Assembly.run, List.foldl_cons, List.foldl_nil, Assembly.perform]
      cases (a.receive p).2.take? p.id <;> rfl
  | stored => rfl
  | duplicate => rfl
  | stale => rfl
  | invalid => rfl

/-- **An event makes its calls to each assembly, and nothing else.** -/
theorem assembly_handle {channel : Channel} (hchannel : channel ≠ .message) (e : Event) :
    (r.handle e).assembly channel = (r.assembly channel).run (calls channel r e) := by
  cases e with
  | packet p =>
      show (r.takePacket p).assembly channel = _
      by_cases hmessage : p.channel = .message
      · have hother : p.channel ≠ channel := fun hc => hchannel (hc ▸ hmessage)
        rw [(r.takePacket_message hmessage channel).2, calls, if_neg hother]
        rfl
      · have habsorb : (r.takePacket p).assembly channel = (r.absorb p).assembly channel := by
          rw [r.takePacket_media hmessage]
          split
          · exact assembly_deliver _ _ channel
          · rfl
        rw [habsorb, r.assembly_absorb hmessage hchannel, calls]
        by_cases hsame : p.channel = channel
        · rw [if_pos hsame, if_pos hsame, assemble_snd, hsame]
        · rw [if_neg hsame, if_neg hsame]
          rfl
  | tick now =>
      show (r.tick now).assembly channel = _
      rw [(r.tick_rest now channel).2, calls]
      split <;> rfl
  | consume =>
      simp only [handle]
      cases r.frames.dequeue? with
      | none => rfl
      | some taken => cases channel <;> rfl
  | elsewhere link => cases channel <;> rfl

/-- **What the consumer gets and what the queue holds afterwards is what it held, and
what was put in.** -/
theorem gets_append_frames (e : Event) :
    r.gets e ++ (r.handle e).frames.items = r.frames.items ++ r.enqueues e := by
  cases e with
  | packet p =>
      show [] ++ (r.takePacket p).frames.items = _
      rw [List.nil_append]
      by_cases hmessage : p.channel = .message
      · rw [(r.takePacket_message hmessage .video).1]
        simp [enqueues, offers, hmessage]
      · rw [r.takePacket_media hmessage, enqueues, offers, if_neg hmessage]
        cases (assemble (r.assembly p.channel) p).1 with
        | none => simp [frames_absorb]
        | some data =>
            dsimp only
            rw [frames_deliver, frames_absorb]
            cases henqueue : r.frames.enqueue? { channel := p.channel, id := p.id, data } with
            | none => simp [henqueue]
            | some frames =>
                simp [henqueue, (BoundedQueue.items_of_enqueue? henqueue).1]
  | tick now =>
      show [] ++ (r.tick now).frames.items = _
      rw [(r.tick_rest now .video).1]
      simp [enqueues, offers]
  | consume =>
      simp only [handle, gets, enqueues, offers]
      cases hdequeue : r.frames.dequeue? with
      | none => simp
      | some taken =>
          obtain ⟨frame, frames⟩ := taken
          simp [(BoundedQueue.items_of_dequeue? hdequeue).1]
  | elsewhere link => simp [handle, gets, enqueues, offers]

/-- An event offers one frame at most. -/
theorem offers_eq (e : Event) : r.offers e = [] ∨ ∃ f, r.offers e = [f] := by
  cases e with
  | packet p =>
      simp only [offers]
      split
      · exact Or.inl rfl
      · cases (assemble (r.assembly p.channel) p).1 with
        | none => exact Or.inl rfl
        | some data => exact Or.inr ⟨_, rfl⟩
  | tick now => exact Or.inl rfl
  | consume => exact Or.inl rfl
  | elsewhere link => exact Or.inl rfl

/-- A frame that is offered comes from a fragment that completed its unit, and is what was
handed on then. -/
theorem exists_packet_of_offers {r : Receiver} {e : Event} {f : Frame} (hf : f ∈ r.offers e) :
    ∃ p, e = .packet p ∧ p.channel ≠ .message ∧ f.channel = p.channel ∧ f.id = p.id ∧
      ((r.assembly p.channel).receive p).1 = .completed ∧
      ∃ a, ((r.assembly p.channel).receive p).2.take? p.id = some (f.data, a) := by
  cases e with
  | packet p =>
      by_cases hmessage : p.channel = .message
      · simp [offers, hmessage] at hf
      · simp only [offers, if_neg hmessage, Option.mem_toList, Option.map_eq_some_iff] at hf
        obtain ⟨data, hdata, rfl⟩ := hf
        refine ⟨p, rfl, hmessage, rfl, rfl, ?_⟩
        unfold assemble at hdata
        cases hreceive : (r.assembly p.channel).receive p with
        | mk v a =>
            rw [hreceive] at hdata
            cases v with
            | completed =>
                cases htake : a.take? p.id with
                | none => simp [htake] at hdata
                | some handed =>
                    obtain ⟨b, c⟩ := handed
                    simp only [htake, Option.some.injEq] at hdata
                    exact ⟨rfl, c, by rw [hdata]⟩
            | stored => cases hdata
            | duplicate => cases hdata
            | stale => cases hdata
            | invalid => cases hdata
  | tick now => cases hf
  | consume => cases hf
  | elsewhere link => cases hf

/-- What is kept of a channel is what its assembly keeps. -/
theorem kept_calls {channel : Channel} (hchannel : channel ≠ .message) (e : Event) :
    Assembly.kept ((r.assembly channel).trace (calls channel r e)) =
      (r.keeps e).filter fun p => p.channel = channel := by
  cases e with
  | packet p =>
      by_cases hsame : p.channel = channel
      · subst hsame
        rw [calls, if_pos rfl, keeps, if_neg hchannel]
        cases hv : ((r.assembly p.channel).receive p).1 <;>
          simp [Assembly.trace, Assembly.kept, Assembly.step, Assembly.perform,
            Assembly.Step.kept?, hv]
      · rw [calls, if_neg hsame, keeps]
        split
        · rfl
        · split <;> simp [Assembly.trace, Assembly.kept, hsame]
  | tick now =>
      simp only [calls, keeps]
      split <;> rfl
  | consume => rfl
  | elsewhere link => rfl

end Event

/-! ### Whole runs -/

theorem assembly_after {channel : Channel} (hchannel : channel ≠ .message) (r : Receiver)
    (events : List Event) :
    (r.after events).assembly channel =
      (r.assembly channel).run (record (calls channel) r events) := by
  induction events generalizing r with
  | nil => rfl
  | cons e rest ih =>
      show ((r.handle e).after rest).assembly channel = _
      rw [ih, assembly_handle r hchannel, record, Assembly.run_append]

theorem kept_after {channel : Channel} (hchannel : channel ≠ .message) (r : Receiver)
    (events : List Event) :
    Assembly.kept ((r.assembly channel).trace (record (calls channel) r events)) =
      (record keeps r events).filter fun p => p.channel = channel := by
  induction events generalizing r with
  | nil => rfl
  | cons e rest ih =>
      rw [record, Assembly.trace_append, Assembly.kept_append, kept_calls r hchannel,
        ← assembly_handle r hchannel, ih, ← List.filter_append]
      rfl

/-- What the consumer got and what still waits is what was put into the queue. -/
theorem gets_append_after (r : Receiver) (events : List Event) :
    record gets r events ++ (r.after events).frames.items =
      r.frames.items ++ record enqueues r events := by
  induction events generalizing r with
  | nil => simp [record, after]
  | cons e rest ih =>
      show (r.gets e ++ record gets (r.handle e) rest) ++ ((r.handle e).after rest).frames.items = _
      rw [List.append_assoc, ih, ← List.append_assoc, gets_append_frames, List.append_assoc]
      rfl

section Start

variable (link : Link) (reception : Configuration.Reception) (events : List Event)

theorem assembly_after_start {channel : Channel} (hchannel : channel ≠ .message) :
    ((start link reception).after events).assembly channel =
      (Assembly.empty channel { size := reception.ringSize }).run
        (record (calls channel) (start link reception) events) := by
  rw [assembly_after hchannel, assembly_start link reception hchannel]

theorem sound_after_start {channel : Channel} (hchannel : channel ≠ .message) :
    (((start link reception).after events).assembly channel).Sound := by
  rw [assembly_after_start link reception events hchannel]
  exact (Assembly.sound_empty channel _).run _

/-- The unit of a frame that is offered is new, and finished from then on. -/
theorem isFinished_of_offers {e : Event} {f : Frame}
    (hf : f ∈ ((start link reception).after events).offers e) :
    (((start link reception).after events).assembly f.channel).isFinished f.id = false ∧
      (((start link reception).after (events ++ [e])).assembly f.channel).isFinished f.id =
        true := by
  obtain ⟨p, rfl, hmedia, hchannel, hid, hcompleted, a, htake⟩ := exists_packet_of_offers hf
  rw [hchannel, hid]
  have hsound := sound_after_start link reception events hmedia
  refine ⟨?_, ?_⟩
  · rcases Assembly.receive_cases hsound p with hrefused | ⟨s, hs⟩
    · exact absurd hcompleted hrefused.verdict.ne_completed
    · exact hs.unfinished
  · have hafter : (start link reception).after (events ++ [.packet p]) =
        ((start link reception).after events).handle (.packet p) := by
      rw [after_append]
      rfl
    rw [hafter, assembly_handle _ hmedia, calls, if_pos rfl, if_pos hcompleted]
    obtain ⟨s, -, hsid, -, -, -, rfl⟩ :=
      (Assembly.take?_eq_some (hsound.receive p).toPlaced).mp htake
    have hrun : (((start link reception).after events).assembly p.channel).run
        [.receive p, .take p.id] =
        ((((start link reception).after events).assembly p.channel).receive p).2.handOn s := by
      simp [Assembly.run, Assembly.perform, htake]
    rw [hrun]
    exact (Assembly.isFinished_handOn _ s p.id).mpr (Or.inr (by rw [hsid]; exact Int32.le_refl _))

/-- What was offered is finished. -/
theorem isFinished_of_record {f : Frame}
    (hf : f ∈ record offers (start link reception) events) :
    f.channel ≠ .message ∧
      (((start link reception).after events).assembly f.channel).isFinished f.id = true := by
  induction events using List.reverseRecOn with
  | nil => cases hf
  | append_singleton events e ih =>
      rw [record_concat, List.mem_append] at hf
      rcases hf with hold | hnew
      · obtain ⟨hmedia, hfin⟩ := ih hold
        have hafter : (start link reception).after (events ++ [e]) =
            ((start link reception).after events).handle e := by
          rw [after_append]
          rfl
        rw [hafter, assembly_handle _ hmedia]
        have hsound := sound_after_start link reception events hmedia
        exact ⟨hmedia, Assembly.isFinished_run hsound _ hfin⟩
      · obtain ⟨p, -, hmedia, hchannel, -⟩ := exists_packet_of_offers hnew
        exact ⟨hchannel ▸ hmedia, (isFinished_of_offers link reception events hnew).2⟩

/-- **The units that are offered on a channel only ever increase.** -/
theorem pairwise_offers (channel : Channel) :
    (((record offers (start link reception) events).filter fun f => f.channel = channel).map
      Frame.id).Pairwise (· < ·) := by
  induction events using List.reverseRecOn with
  | nil => exact List.Pairwise.nil
  | append_singleton events e ih =>
      rw [record_concat, List.filter_append, List.map_append, List.pairwise_append]
      refine ⟨ih, ?_, ?_⟩
      · rcases offers_eq ((start link reception).after events) e with hnone | ⟨f, hone⟩
        · rw [hnone]
          exact List.Pairwise.nil
        · by_cases hchannel : f.channel = channel
          · simp [hone, hchannel]
          · simp [hone, hchannel]
      · intro x hx y hy
        obtain ⟨f, hf, rfl⟩ := List.mem_map.mp hx
        obtain ⟨g, hg, rfl⟩ := List.mem_map.mp hy
        simp only [List.mem_filter, decide_eq_true_eq] at hf hg
        have hold := (isFinished_of_record link reception events hf.1).2
        have hnew := (isFinished_of_offers link reception events hg.1).1
        rw [hf.2] at hold
        rw [hg.2] at hnew
        by_contra hle
        have hfin := Assembly.isFinished_of_le (Int32.not_lt.mp hle) hold
        rw [hnew] at hfin
        exact Bool.noConfusion hfin

/-- **A frame carries what was kept first of each of its fragments.** -/
theorem exists_pieces_of_offers {e : Event} {f : Frame}
    (hf : f ∈ ((start link reception).after events).offers e) :
    ∃ p, e = .packet p ∧ f.channel = p.channel ∧ f.id = p.id ∧
      ((((start link reception).after events).assembly p.channel).receive p).1 = .completed ∧
      ∃ pieces : List Bytes, pieces.flatten = f.data ∧
        (List.range p.count.toNat).map
            (firstOf ((record keeps (start link reception) (events ++ [e])).filter
              fun q => q.channel = p.channel) p.id) =
          pieces.map some := by
  obtain ⟨p, rfl, hmedia, hchannel, hid, hcompleted, a, htake⟩ := exists_packet_of_offers hf
  refine ⟨p, rfl, hchannel, hid, hcompleted, ?_⟩
  have hsound := sound_after_start link reception events hmedia
  -- The slot that was handed on is the one that took the packet in.
  obtain ⟨s, hs⟩ : ∃ s, (((start link reception).after events).assembly p.channel).TakesIn p s := by
    rcases Assembly.receive_cases hsound p with hrefused | hkept
    · exact absurd hcompleted hrefused.verdict.ne_completed
    · exact hkept
  obtain ⟨t, ht, htid, -, hcomplete, hdata, -⟩ :=
    (Assembly.take?_eq_some (hsound.receive p).toPlaced).mp htake
  have hts : t = s.accept p := by
    refine (hsound.receive p).toPlaced.eq_of_id_eq ht ?_ ?_
    · rw [Assembly.receive_of_takesIn hsound hs]
      exact (hs.mem_keepIn hsound).mpr (Or.inl rfl)
    · rw [htid, Slot.id_accept, hs.id_eq]
  have hcount : t.count = p.count.toNat := by
    rw [hts]
    exact hs.fits.count_accept (hs.sound_slot hsound)
  have hrecorded := Assembly.recorded_run p.channel { size := reception.ringSize }
    (record (calls p.channel) (start link reception) events ++ [.receive p])
  rw [Assembly.run_concat, ← assembly_after_start link reception events hmedia,
    Assembly.trace_concat, ← assembly_after_start link reception events hmedia] at hrecorded
  obtain ⟨pieces, hflatten, hpieces⟩ :=
    hrecorded.exists_pieces ht ((hsound.receive p).slot t ht) hcomplete
  refine ⟨pieces, by rw [hflatten, hdata], ?_⟩
  rw [← hpieces, hcount, htid, Assembly.kept_concat_of_takesIn hsound hs,
    ← assembly_start link reception hmedia, kept_after hmedia, record_concat, List.filter_append]
  have hkeeps : ((start link reception).after events).keeps (.packet p) = [p] := by
    simp only [keeps, if_neg hmedia, hcompleted]
  simp [hkeeps]

/--
**Frames come in order, at most once, and as they were sent.**  Whatever a receiver that
just started is given, and whenever its consumer takes frames from it:

* the units offered to the queue on one channel strictly increase;
* a frame is offered by a fragment that completed its unit, and carries the payloads that
  were kept first at each of its places, in the order of the places;
* the frames that the consumer got, followed by those still waiting, are the frames that
  were put into the queue, in the order in which they were offered.
-/
theorem delivers_in_order :
    (∀ channel, (((record offers (start link reception) events).filter fun f =>
      f.channel = channel).map Frame.id).Pairwise (· < ·)) ∧
    (∀ earlier e later, events = earlier ++ e :: later →
      ∀ f ∈ ((start link reception).after earlier).offers e,
        ∃ p, e = .packet p ∧ f.channel = p.channel ∧ f.id = p.id ∧
          ((((start link reception).after earlier).assembly p.channel).receive p).1 =
            .completed ∧
          ∃ pieces : List Bytes, pieces.flatten = f.data ∧
            (List.range p.count.toNat).map
                (firstOf ((record keeps (start link reception) (earlier ++ [e])).filter
                  fun q => q.channel = p.channel) p.id) =
              pieces.map some) ∧
    record gets (start link reception) events ++
        ((start link reception).after events).frames.items =
      record enqueues (start link reception) events := by
  refine ⟨pairwise_offers link reception events, ?_, ?_⟩
  · intro earlier e later hevents f hf
    exact exists_pieces_of_offers link reception earlier hf
  · exact gets_append_after (start link reception) events

end Start

end Receiver

end Framecast
