/-
What a receiver counts, over all its statistics windows.

A window is closed by a tick that comes a full period after it began, and counting starts
afresh.  Whatever a receiver counts is therefore spread over the windows of a run, those
that were closed and the one that is open, and `total` adds it up again.

Units that an assembly gives up are not counted where that happens, which may be in a
round of requests between two packets, but with the next media packet: by how much the
counts of the two assemblies together are ahead of `skippedSeen`.  So the total of the
skipped frames is `skippedSeen` and the frames that were refused, at all times.
-/
import Framecast.Proofs.Assembly.Balance
import Framecast.Proofs.Reception.Delivery

namespace Framecast

theorem Meter.counts_of_close? {m next : Meter} {s : Statistics} {now : Int}
    (h : m.close? now = some (s, next)) : next.skipped = 0 ∧ next.rendered = 0 := by
  unfold Meter.close? at h
  dsimp only at h
  split at h
  · cases h
  · cases h
    exact ⟨rfl, rfl⟩

namespace Receiver

/-! ### What is counted -/

/-- The frame that an event offers to the queue and that finds no room there. -/
def refuses (r : Receiver) (e : Event) : List Frame :=
  (r.offers e).filter fun f => (r.frames.enqueue? f).isNone

/-- The window that an event closes, with all that was counted in it. -/
def closes (r : Receiver) : Event → List Meter
  | .tick now =>
    let window := (r.checkMissing now).meter
    if (window.close? now).isSome then [window] else []
  | _ => []

/-- The windows of a run: those that were closed, and the one that is open. -/
def windows (r : Receiver) (events : List Event) : List Meter :=
  record closes r events ++ [(r.after events).meter]

/-- What a run counted, over all its windows. -/
def total (count : Meter → Nat) (r : Receiver) (events : List Event) : Nat :=
  ((r.windows events).map count).sum

/-- The units that both assemblies gave up, as they count them. -/
def lost (r : Receiver) : Nat :=
  r.video.counts.skipped + r.audio.counts.skipped

/-- The units that both assemblies handed on, as they count them. -/
def completed (r : Receiver) : Nat :=
  r.video.counts.completed + r.audio.counts.completed

/-- What a receiver keeps of its counting: the open window, and how many of the units that
were given up are in some window. -/
def tally (r : Receiver) : Meter × Nat :=
  (r.meter, r.skippedSeen)

theorem after_concat (r : Receiver) (events : List Event) (e : Event) :
    r.after (events ++ [e]) = (r.after events).handle e := by
  rw [after_append]
  rfl

/-! ### What an event counts -/

section Event

variable (r : Receiver)

@[simp] theorem tally_notify (notice : Notice) : (r.notify notice).tally = r.tally := by
  unfold notify
  split <;> rfl

theorem tally_setAssembly (channel : Channel) (a : Assembly) :
    (r.setAssembly channel a).tally = r.tally := by
  cases channel <;> rfl

theorem tally_obey (m : Control) : (r.obey m).tally = r.tally := by
  unfold obey
  split
  · rfl
  · rw [tally_notify]
    rfl
  · rw [tally_notify]

theorem tally_adapt (s : Statistics) : (r.adapt s).tally = r.tally := by
  unfold adapt
  dsimp only
  rw [tally_notify]
  rfl

theorem tally_message {p : Packet} (hmessage : p.channel = .message) :
    (r.takePacket p).tally = r.tally := by
  unfold takePacket
  rw [hmessage]
  dsimp only
  cases Control.decode? p.payload with
  | some m => exact tally_obey r m
  | none => rfl

/-- A round of requests counts no frames. -/
theorem checkMissing_tally (now : Int) :
    (r.checkMissing now).meter.skipped = r.meter.skipped ∧
      (r.checkMissing now).meter.rendered = r.meter.rendered ∧
      (r.checkMissing now).skippedSeen = r.skippedSeen := by
  unfold checkMissing
  split <;> exact ⟨rfl, rfl, rfl⟩

/-- The window is closed or goes on. -/
theorem checkPeriod_tally (now : Int) :
    (r.checkPeriod now).tally =
      (((r.meter.close? now).map Prod.snd).getD r.meter, r.skippedSeen) := by
  unfold checkPeriod
  cases r.meter.close? now with
  | none => rfl
  | some closed =>
    obtain ⟨s, meter⟩ := closed
    dsimp only
    split
    · rw [tally_adapt, tally_notify]
      rfl
    · rw [tally_notify]
      rfl

/-- What is ahead is counted, and only that. -/
theorem countSkipped_tally :
    r.countSkipped.meter.skipped + r.skippedSeen = r.meter.skipped + r.countSkipped.skippedSeen ∧
      r.countSkipped.meter.rendered = r.meter.rendered ∧
      r.countSkipped.skippedSeen = max r.skippedSeen r.lost := by
  unfold countSkipped
  dsimp only
  split
  · rename_i hahead
    have hlost : r.lost = r.video.counts.skipped + r.audio.counts.skipped := rfl
    refine ⟨?_, rfl, ?_⟩
    · show r.meter.skipped + (r.video.counts.skipped + r.audio.counts.skipped - r.skippedSeen) +
        r.skippedSeen = r.meter.skipped + (r.video.counts.skipped + r.audio.counts.skipped)
      omega
    · show r.video.counts.skipped + r.audio.counts.skipped = max r.skippedSeen r.lost
      omega
  · rename_i hahead
    have hlost : r.lost = r.video.counts.skipped + r.audio.counts.skipped := rfl
    exact ⟨rfl, rfl, by omega⟩

/-- A frame that is handed on is counted one way or the other. -/
theorem deliver_tally (frame : Frame) :
    (r.deliver frame).skippedSeen = r.skippedSeen ∧
      (r.deliver frame).meter.rendered =
        r.meter.rendered + ([frame].filter fun f => (r.frames.enqueue? f).isSome).length ∧
      (r.deliver frame).meter.skipped =
        r.meter.skipped + ([frame].filter fun f => (r.frames.enqueue? f).isNone).length := by
  unfold deliver
  cases henqueue : r.frames.enqueue? frame with
  | none => simp [henqueue, Meter.countSkipped]
  | some frames => simp [henqueue, Meter.countRendered]

theorem lost_eq_of_assembly {r q : Receiver} (hvideo : r.assembly .video = q.assembly .video)
    (haudio : r.assembly .audio = q.assembly .audio) : r.lost = q.lost := by
  show (r.assembly .video).counts.skipped + (r.assembly .audio).counts.skipped =
    (q.assembly .video).counts.skipped + (q.assembly .audio).counts.skipped
  rw [hvideo, haudio]

theorem absorb_tally (p : Packet) :
    (r.absorb p).meter.skipped + r.skippedSeen = r.meter.skipped + (r.absorb p).skippedSeen ∧
      (r.absorb p).meter.rendered = r.meter.rendered ∧
      (r.absorb p).skippedSeen = max r.skippedSeen (r.absorb p).lost := by
  let q := { r with meter := r.meter.countPacket p.payload.length }.setAssembly p.channel
    (assemble (r.assembly p.channel) p).2
  have hq : q.tally = (r.meter.countPacket p.payload.length, r.skippedSeen) :=
    tally_setAssembly _ p.channel _
  have hmeter : q.meter = r.meter.countPacket p.payload.length := congrArg Prod.fst hq
  have hseen : q.skippedSeen = r.skippedSeen := congrArg Prod.snd hq
  obtain ⟨hskipped, hrendered, hseen'⟩ := q.countSkipped_tally
  have hlost : q.countSkipped.lost = q.lost :=
    lost_eq_of_assembly (assembly_countSkipped q .video) (assembly_countSkipped q .audio)
  rw [hmeter, hseen] at hskipped
  rw [hmeter] at hrendered
  rw [hseen, ← hlost] at hseen'
  exact ⟨hskipped, hrendered, hseen'⟩

/-- **A media packet counts all that the assemblies gave up and was not counted before,
and the frame that it completes, if it does.** -/
theorem handle_media {p : Packet} (hmedia : p.channel ≠ .message) :
    (r.handle (.packet p)).skippedSeen = max r.skippedSeen (r.handle (.packet p)).lost ∧
      (r.handle (.packet p)).meter.skipped + r.skippedSeen =
        r.meter.skipped + (r.handle (.packet p)).skippedSeen + (r.refuses (.packet p)).length ∧
      (r.handle (.packet p)).meter.rendered =
        r.meter.rendered + (r.enqueues (.packet p)).length := by
  obtain ⟨hskipped, hrendered, hseen⟩ := r.absorb_tally p
  have hhandle : r.handle (.packet p) = r.takePacket p := rfl
  rw [hhandle, r.takePacket_media hmedia, refuses, enqueues, offers, if_neg hmedia]
  cases (assemble (r.assembly p.channel) p).1 with
  | none => exact ⟨hseen, hskipped, hrendered⟩
  | some data =>
    dsimp only [Option.map_some, Option.toList_some]
    obtain ⟨hdseen, hdrendered, hdskipped⟩ :=
      (r.absorb p).deliver_tally { channel := p.channel, id := p.id, data }
    rw [r.frames_absorb] at hdrendered hdskipped
    have hlost : ((r.absorb p).deliver { channel := p.channel, id := p.id, data }).lost =
        (r.absorb p).lost :=
      lost_eq_of_assembly (assembly_deliver _ _ .video) (assembly_deliver _ _ .audio)
    rw [hdseen, hdrendered, hdskipped, hlost, hrendered]
    exact ⟨hseen, by omega, rfl⟩

/-- Any other event counts no frames, though it may close the window. -/
theorem handle_other {e : Event} (hother : ∀ p, e = .packet p → p.channel = .message) :
    (r.handle e).skippedSeen = r.skippedSeen ∧
      ((closes r e = [] ∧ (r.handle e).meter.skipped = r.meter.skipped ∧
          (r.handle e).meter.rendered = r.meter.rendered) ∨
        ∃ window, closes r e = [window] ∧ window.skipped = r.meter.skipped ∧
          window.rendered = r.meter.rendered ∧ (r.handle e).meter.skipped = 0 ∧
          (r.handle e).meter.rendered = 0) := by
  cases e with
  | packet p =>
    have htally : (r.handle (.packet p)).tally = r.tally := r.tally_message (hother p rfl)
    have hmeter : (r.handle (.packet p)).meter = r.meter := congrArg Prod.fst htally
    have hseen : (r.handle (.packet p)).skippedSeen = r.skippedSeen := congrArg Prod.snd htally
    exact ⟨hseen, Or.inl ⟨rfl, by rw [hmeter], by rw [hmeter]⟩⟩
  | consume =>
    unfold handle
    dsimp only
    split <;> exact ⟨rfl, Or.inl ⟨rfl, rfl, rfl⟩⟩
  | elsewhere link => exact ⟨rfl, Or.inl ⟨rfl, rfl, rfl⟩⟩
  | tick now =>
    obtain ⟨hskipped, hrendered, hseen⟩ := r.checkMissing_tally now
    have htally : (r.handle (.tick now)).tally = _ := (r.checkMissing now).checkPeriod_tally now
    have hmeter : (r.handle (.tick now)).meter = _ := congrArg Prod.fst htally
    have hseen' : (r.handle (.tick now)).skippedSeen = _ := congrArg Prod.snd htally
    refine ⟨hseen'.trans hseen, ?_⟩
    rw [hmeter, closes]
    cases hclose : (r.checkMissing now).meter.close? now with
    | none => exact Or.inl ⟨rfl, hskipped, hrendered⟩
    | some closed =>
      obtain ⟨s, next⟩ := closed
      obtain ⟨hnoSkipped, hnoRendered⟩ := Meter.counts_of_close? hclose
      exact Or.inr ⟨_, rfl, hskipped, hrendered, hnoSkipped, hnoRendered⟩

theorem media_or_other (e : Event) :
    (∃ p, e = .packet p ∧ p.channel ≠ .message) ∨
      ∀ p, e = .packet p → p.channel = .message := by
  by_cases hmedia : ∃ p, e = .packet p ∧ p.channel ≠ .message
  · exact Or.inl hmedia
  · refine Or.inr fun p hp => ?_
    by_contra hchannel
    exact hmedia ⟨p, hp, hchannel⟩

theorem offers_other {e : Event} (hother : ∀ p, e = .packet p → p.channel = .message) :
    r.offers e = [] := by
  cases e with
  | packet p => exact if_pos (hother p rfl)
  | tick now => rfl
  | consume => rfl
  | elsewhere link => rfl

/-- What an event adds to the totals, whether or not it closes a window. -/
theorem total_handle (e : Event) :
    ((closes r e).map Meter.skipped).sum + (r.handle e).meter.skipped + r.skippedSeen =
        r.meter.skipped + (r.handle e).skippedSeen + (r.refuses e).length ∧
      ((closes r e).map Meter.rendered).sum + (r.handle e).meter.rendered =
        r.meter.rendered + (r.enqueues e).length := by
  rcases media_or_other e with ⟨p, rfl, hmedia⟩ | hother
  · obtain ⟨-, hskipped, hrendered⟩ := r.handle_media hmedia
    exact ⟨by simpa [closes] using hskipped, by simpa [closes] using hrendered⟩
  · obtain ⟨hseen, hcloses⟩ := r.handle_other hother
    rw [refuses, enqueues, r.offers_other hother, hseen]
    rcases hcloses with ⟨hnone, hskipped, hrendered⟩ |
      ⟨window, hone, hskipped, hrendered, hskipped', hrendered'⟩
    · simp [hnone, hskipped, hrendered]
    · simp [hone, hskipped, hrendered, hskipped', hrendered']

end Event

/-! ### What a run counts -/

theorem total_concat (count : Meter → Nat) (r : Receiver) (events : List Event) (e : Event) :
    total count r (events ++ [e]) + count (r.after events).meter =
      total count r events + ((closes (r.after events) e).map count).sum +
        count ((r.after events).handle e).meter := by
  simp only [total, windows, record_concat, after_concat, List.map_append, List.sum_append,
    List.map_cons, List.map_nil, List.sum_cons, List.sum_nil]
  omega

/-- **The skipped frames that were counted** are those that were refused, and the units
given up as far as they were seen. -/
theorem total_skipped (r : Receiver) (events : List Event) :
    total Meter.skipped r events + r.skippedSeen =
      r.meter.skipped + (r.after events).skippedSeen + (record refuses r events).length := by
  induction events using List.reverseRecOn with
  | nil => rfl
  | append_singleton events e ih =>
    obtain ⟨hskipped, -⟩ := (r.after events).total_handle e
    have htotal := total_concat Meter.skipped r events e
    rw [record_concat, List.length_append, after_concat]
    omega

/-- **The rendered frames that were counted** are those that the queue took in. -/
theorem total_rendered (r : Receiver) (events : List Event) :
    total Meter.rendered r events = r.meter.rendered + (record enqueues r events).length := by
  induction events using List.reverseRecOn with
  | nil => rfl
  | append_singleton events e ih =>
    obtain ⟨-, hrendered⟩ := (r.after events).total_handle e
    have htotal := total_concat Meter.rendered r events e
    rw [record_concat, List.length_append]
    omega

/-- A frame that is offered is taken in or refused. -/
theorem length_record_offers (r : Receiver) (events : List Event) :
    (record offers r events).length =
      (record enqueues r events).length + (record refuses r events).length := by
  induction events generalizing r with
  | nil => rfl
  | cons e rest ih =>
    have hevent : (r.offers e).length = (r.enqueues e).length + (r.refuses e).length := by
      rcases r.offers_eq e with hnone | ⟨f, hone⟩
      · simp [enqueues, refuses, hnone]
      · cases henqueue : r.frames.enqueue? f <;> simp [enqueues, refuses, hone, henqueue]
    simp only [record, List.length_append]
    rw [ih, hevent]
    omega

/-! ### Units handed on -/

theorem completed_assemble {a : Assembly} (ha : a.Sound) (p : Packet) :
    (assemble a p).2.counts.completed = a.counts.completed + (assemble a p).1.toList.length := by
  have hreceive : (a.receive p).2.counts.completed = a.counts.completed :=
    (Assembly.opening_receive ha p).completed
  have hplaced := (ha.receive p).toPlaced
  unfold assemble
  cases hcase : a.receive p with
  | mk v b =>
    rw [hcase] at hreceive hplaced
    cases v with
    | completed =>
      cases htake : b.take? p.id with
      | none => simpa [htake] using hreceive
      | some handed =>
        obtain ⟨data, c⟩ := handed
        obtain ⟨s, -, -, -, -, -, rfl⟩ := (Assembly.take?_eq_some hplaced).mp htake
        simp only [htake, Option.toList_some, List.length_singleton, Assembly.completed_handOn]
        exact congrArg (· + 1) hreceive
    | stored => exact hreceive
    | duplicate => exact hreceive
    | stale => exact hreceive
    | invalid => exact hreceive

theorem assembly_media {r : Receiver} {p : Packet} (hmedia : p.channel ≠ .message)
    {channel : Channel} (hchannel : channel ≠ .message) :
    (r.handle (.packet p)).assembly channel =
      if p.channel = channel then (assemble (r.assembly p.channel) p).2
      else r.assembly channel := by
  rw [← r.assembly_absorb hmedia hchannel]
  show (r.takePacket p).assembly channel = _
  rw [r.takePacket_media hmedia]
  split
  · exact assembly_deliver _ _ channel
  · rfl

/-- An event hands on what it offers to the queue. -/
theorem completed_handle {r : Receiver} (hvideo : (r.assembly .video).Sound)
    (haudio : (r.assembly .audio).Sound) (e : Event) :
    (r.handle e).completed = r.completed + (r.offers e).length := by
  show ((r.handle e).assembly .video).counts.completed +
      ((r.handle e).assembly .audio).counts.completed =
    (r.assembly .video).counts.completed + (r.assembly .audio).counts.completed + _
  have hlength (o : Option Bytes) (g : Bytes → Frame) : (o.map g).toList.length =
      o.toList.length := by
    cases o <;> rfl
  cases e with
  | packet p =>
    cases hchannel : p.channel with
    | message =>
      have hsame (channel : Channel) : (r.handle (.packet p)).assembly channel = _ :=
        (r.takePacket_message hchannel channel).2
      rw [hsame, hsame, offers, if_pos hchannel]
      rfl
    | video =>
      have hmedia : p.channel ≠ .message := by rw [hchannel]; decide
      rw [assembly_media hmedia (by decide), assembly_media hmedia (by decide), offers,
        if_neg hmedia, hchannel, if_pos rfl, if_neg (by decide), completed_assemble hvideo]
      rw [hlength]
      omega
    | audio =>
      have hmedia : p.channel ≠ .message := by rw [hchannel]; decide
      rw [assembly_media hmedia (by decide), assembly_media hmedia (by decide), offers,
        if_neg hmedia, hchannel, if_neg (by decide), if_pos rfl, completed_assemble haudio]
      rw [hlength]
      omega
  | tick now =>
    have hsame {channel : Channel} (hsound : (r.assembly channel).Sound) :
        ((r.handle (.tick now)).assembly channel).counts.completed =
          (r.assembly channel).counts.completed := by
      show ((r.tick now).assembly channel).counts.completed = _
      rw [(r.tick_rest now channel).2]
      split
      · exact (Assembly.opening_request hsound now).completed
      · rfl
    rw [hsame hvideo, hsame haudio]
    rfl
  | consume =>
    unfold handle
    dsimp only
    split <;> rfl
  | elsewhere link => rfl

/-- **The units that were handed on** are the frames that were offered to the queue. -/
theorem completed_after (link : Link) (reception : Configuration.Reception)
    (events : List Event) :
    ((start link reception).after events).completed =
      (record offers (start link reception) events).length := by
  induction events using List.reverseRecOn with
  | nil => rfl
  | append_singleton events e ih =>
    rw [after_concat, record_concat, List.length_append, ← ih]
    exact completed_handle (sound_after_start link reception events (by decide))
      (sound_after_start link reception events (by decide)) e

end Receiver

end Framecast
