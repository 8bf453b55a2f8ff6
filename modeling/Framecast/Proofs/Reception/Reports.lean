/-
Which window reports a skipped frame.

A frame is skipped in one of two ways: an assembly gives its unit up, or it is complete and
the queue refuses it.  `Ledger` notes for every window of a run the frames that are in its
count: a refused frame is entered at once, a unit given up is pending until the next media
packet.  A window counts as many skipped frames as the ledger notes for it, and the ledger
notes every skipped frame once.  So none is reported twice, and after a media packet, when
nothing is pending, none is left out.

That no frame is noted twice is known from the two ways of being skipped.  An assembly gives
a unit up once, and never one that it handed on; a refused frame was handed on; and the
units that are offered to the queue on one channel increase.
-/
import Mathlib.Data.Finset.Prod
import Framecast.Proofs.Reception.Metering

namespace Framecast

/-- The unit of a frame, among all channels. -/
def Frame.unit (f : Frame) : Channel × Int32 :=
  (f.channel, f.id)

namespace Assembly

theorem mem_gather {f : Step → Finset Int32} {steps : List Step} {id : Int32} :
    id ∈ gather f steps ↔ ∃ st ∈ steps, id ∈ f st := by
  induction steps with
  | nil =>
    show id ∈ (∅ : Finset Int32) ↔ _
    simp
  | cons st rest ih =>
    show id ∈ f st ∪ gather f rest ↔ _
    simp [ih]

/-- What was given up is not given up again. -/
theorem Books.disjoint_writtenOff {steps later : List Step} {a : Assembly}
    (h : Books (steps ++ later) a) : Disjoint (writtenOff steps) (writtenOff later) := by
  refine Finset.disjoint_left.mpr fun id hold hnew => ?_
  have htimes : timesWrittenOff (steps ++ later) id =
      timesWrittenOff steps id + timesWrittenOff later id := List.countP_append
  have hpos {l : List Step} (hl : id ∈ writtenOff l) : 0 < timesWrittenOff l id := by
    obtain ⟨st, hst, hid⟩ := mem_gather.mp hl
    exact List.countP_pos_iff.mpr ⟨st, hst, by simpa using hid⟩
  have honce := h.once id
  have holdPos := hpos hold
  have hnewPos := hpos hnew
  split at honce <;> omega

end Assembly

namespace Receiver

open Assembly (Step Books delivered writtenOff gather)

/-! ### The frames that are skipped -/

/-- What happened to the assembly of a channel over a run. -/
def history (channel : Channel) (r : Receiver) (events : List Event) : List Step :=
  (r.assembly channel).trace (record (calls channel) r events)

/-- The units that the assemblies gave up over a run. -/
def givenUp (r : Receiver) (events : List Event) : Finset (Channel × Int32) :=
  {Channel.video} ×ˢ writtenOff (history .video r events) ∪
    {Channel.audio} ×ˢ writtenOff (history .audio r events)

/-- The units of the frames that were refused over a run. -/
def turnedAway (r : Receiver) (events : List Event) : Finset (Channel × Int32) :=
  ((record refuses r events).map Frame.unit).toFinset

/-- The frames that were skipped over a run. -/
def skipped (r : Receiver) (events : List Event) : Finset (Channel × Int32) :=
  r.givenUp events ∪ r.turnedAway events

theorem history_append {channel : Channel} (hchannel : channel ≠ .message) (r : Receiver)
    (events later : List Event) :
    history channel r (events ++ later) =
      history channel r events ++ history channel (r.after events) later := by
  rw [history, record_append, Assembly.trace_append, ← assembly_after hchannel]
  rfl

theorem mem_givenUp {r : Receiver} {events : List Event} {x : Channel × Int32} :
    x ∈ r.givenUp events ↔ x.1 ≠ .message ∧ x.2 ∈ writtenOff (history x.1 r events) := by
  obtain ⟨channel, id⟩ := x
  cases channel <;> simp [givenUp]

theorem mem_turnedAway {r : Receiver} {events : List Event} {x : Channel × Int32} :
    x ∈ r.turnedAway events ↔ ∃ f ∈ record refuses r events, f.unit = x := by
  simp [turnedAway]

theorem givenUp_append (r : Receiver) (events later : List Event) :
    r.givenUp (events ++ later) = r.givenUp events ∪ (r.after events).givenUp later := by
  ext x
  rw [Finset.mem_union, mem_givenUp, mem_givenUp, mem_givenUp, ← and_or_left]
  refine and_congr_right fun hchannel => ?_
  rw [history_append hchannel, writtenOff, Assembly.gather_append, Finset.mem_union]
  rfl

theorem turnedAway_append (r : Receiver) (events later : List Event) :
    r.turnedAway (events ++ later) = r.turnedAway events ∪ (r.after events).turnedAway later := by
  rw [turnedAway, record_append, List.map_append, List.toFinset_append]
  rfl

theorem skipped_nil (r : Receiver) : r.skipped [] = ∅ := by
  have hnone (channel : Channel) : writtenOff (history channel r []) = ∅ := rfl
  rw [skipped, givenUp, hnone, hnone, Finset.product_empty, Finset.product_empty]
  rfl

theorem exists_of_mem_record {α : Type} {f : Receiver → Event → List α} {r : Receiver}
    {events : List Event} {x : α} (h : x ∈ record f r events) :
    ∃ earlier e later, events = earlier ++ e :: later ∧ x ∈ f (r.after earlier) e := by
  induction events generalizing r with
  | nil => cases h
  | cons e rest ih =>
    rcases List.mem_append.mp h with hnow | hlater
    · exact ⟨[], e, rest, rfl, hnow⟩
    · obtain ⟨earlier, d, later, rfl, hx⟩ := ih hlater
      exact ⟨e :: earlier, d, later, rfl, hx⟩

theorem mem_record {α : Type} {f : Receiver → Event → List α} {r : Receiver}
    {earlier later : List Event} {e : Event} {x : α} (h : x ∈ f (r.after earlier) e) :
    x ∈ record f r (earlier ++ e :: later) := by
  rw [record_append]
  exact List.mem_append.mpr (Or.inr (List.mem_append.mpr (Or.inl h)))

theorem mem_offers_of_mem_refuses {r : Receiver} {events : List Event} {f : Frame}
    (hf : f ∈ record refuses r events) : f ∈ record offers r events := by
  obtain ⟨earlier, e, later, rfl, hnow⟩ := exists_of_mem_record hf
  exact mem_record (List.mem_of_mem_filter hnow)

theorem delivered_append {channel : Channel} (hchannel : channel ≠ .message) (r : Receiver)
    (events later : List Event) :
    delivered (history channel r (events ++ later)) =
      delivered (history channel r events) ∪
        delivered (history channel (r.after events) later) := by
  rw [history_append hchannel, delivered, Assembly.gather_append]
  rfl

/-- A frame that is offered was handed on by its assembly. -/
theorem mem_delivered_of_mem_offers {r : Receiver} {events : List Event} {f : Frame}
    (hf : f ∈ record offers r events) :
    f.channel ≠ .message ∧ f.id ∈ delivered (history f.channel r events) := by
  obtain ⟨earlier, e, later, rfl, hnow⟩ := exists_of_mem_record hf
  obtain ⟨p, rfl, hmedia, hchannel, hid, hcompleted, a, htake⟩ := exists_packet_of_offers hnow
  have hdelivered : p.id ∈ delivered (history p.channel (r.after earlier) [.packet p]) := by
    have hcalls : record (calls p.channel) (r.after earlier) [.packet p] =
        [.receive p, .take p.id] := by
      simp [record, calls, hcompleted]
    rw [history, hcalls, delivered, Assembly.mem_gather]
    refine ⟨_, List.mem_cons_of_mem _ (List.mem_singleton_self _), ?_⟩
    simp [Assembly.step, Assembly.perform, htake, Step.delivered]
  rw [hchannel, hid]
  refine ⟨hmedia, ?_⟩
  have hsplit : earlier ++ .packet p :: later = earlier ++ ([.packet p] ++ later) := rfl
  rw [hsplit, delivered_append hmedia, delivered_append hmedia]
  exact Finset.mem_union_right _ (Finset.mem_union_left _ hdelivered)

section Start

variable (link : Link) (reception : Configuration.Reception) (events : List Event) (e : Event)

theorem books_start {channel : Channel} (hchannel : channel ≠ .message) :
    Books (history channel (start link reception) events)
      (((start link reception).after events).assembly channel) := by
  rw [history, assembly_after_start link reception events hchannel,
    assembly_start link reception hchannel]
  exact Books.run channel _ _

/-- No frame is skipped in both ways. -/
theorem disjoint_givenUp_turnedAway :
    Disjoint ((start link reception).givenUp events)
      ((start link reception).turnedAway events) := by
  refine Finset.disjoint_left.mpr fun x hgiven hturned => ?_
  obtain ⟨f, hf, rfl⟩ := mem_turnedAway.mp hturned
  obtain ⟨hmedia, hoff⟩ := mem_givenUp.mp hgiven
  obtain ⟨-, hdelivered⟩ := mem_delivered_of_mem_offers (mem_offers_of_mem_refuses hf)
  exact ((books_start link reception events hmedia).apart _ hoff).1 hdelivered

/-- No unit is given up by one event and by another. -/
theorem disjoint_givenUp :
    Disjoint ((start link reception).givenUp events)
      (((start link reception).after events).givenUp [e]) := by
  refine Finset.disjoint_left.mpr fun x hold hnew => ?_
  obtain ⟨hmedia, hold⟩ := mem_givenUp.mp hold
  have hbooks := books_start link reception (events ++ [e]) hmedia
  rw [history_append hmedia] at hbooks
  exact Finset.disjoint_left.mp hbooks.disjoint_writtenOff hold (mem_givenUp.mp hnew).2

/-- No frame is refused by one event and by another. -/
theorem disjoint_turnedAway :
    Disjoint ((start link reception).turnedAway events)
      (((start link reception).after events).turnedAway [e]) := by
  refine Finset.disjoint_left.mpr fun x hold hnew => ?_
  obtain ⟨f, hf, rfl⟩ := mem_turnedAway.mp hold
  obtain ⟨g, hg, hunit⟩ := mem_turnedAway.mp hnew
  have hchannel : g.channel = f.channel := congrArg Prod.fst hunit
  have hid : g.id = f.id := congrArg Prod.snd hunit
  have hgoffers : g ∈ ((start link reception).after events).offers e := by
    simpa [record] using mem_offers_of_mem_refuses hg
  have hfinished := (isFinished_of_record link reception events (mem_offers_of_mem_refuses hf)).2
  have hnew := (isFinished_of_offers link reception events hgoffers).1
  rw [hchannel, hid, hfinished] at hnew
  exact Bool.noConfusion hnew

/-- The assemblies count what they gave up. -/
theorem lost_eq_card :
    ((start link reception).after events).lost = ((start link reception).givenUp events).card := by
  have hapart : Disjoint
      ({Channel.video} ×ˢ writtenOff (history .video (start link reception) events))
      ({Channel.audio} ×ˢ writtenOff (history .audio (start link reception) events)) := by
    refine Finset.disjoint_left.mpr fun x hvideo haudio => ?_
    have hv := Finset.mem_singleton.mp (Finset.mem_product.mp hvideo).1
    have ha := Finset.mem_singleton.mp (Finset.mem_product.mp haudio).1
    rw [hv] at ha
    cases ha
  rw [givenUp, Finset.card_union_of_disjoint hapart, Finset.card_product, Finset.card_product,
    Finset.card_singleton, Finset.card_singleton, one_mul, one_mul]
  show (((start link reception).after events).assembly .video).counts.skipped +
    (((start link reception).after events).assembly .audio).counts.skipped = _
  rw [(books_start link reception events (by decide)).skipped,
    (books_start link reception events (by decide)).skipped]

/-- What an event gives up is what the assemblies count more after it. -/
theorem lost_concat :
    ((start link reception).after (events ++ [e])).lost =
      ((start link reception).after events).lost +
        (((start link reception).after events).givenUp [e]).card := by
  rw [lost_eq_card, lost_eq_card, givenUp_append,
    Finset.card_union_of_disjoint (disjoint_givenUp link reception events e)]

/-- What was counted of the units given up is never ahead of the assemblies. -/
theorem skippedSeen_le_lost :
    ((start link reception).after events).skippedSeen ≤
      ((start link reception).after events).lost := by
  induction events using List.reverseRecOn with
  | nil => exact Nat.zero_le _
  | append_singleton events e ih =>
    have hlost := lost_concat link reception events e
    rw [after_concat] at hlost ⊢
    rcases media_or_other e with ⟨p, rfl, hmedia⟩ | hother
    · have hseen := (((start link reception).after events).handle_media hmedia).1
      omega
    · have hseen := (((start link reception).after events).handle_other hother).1
      omega

/-- A media packet brings the counting up to date. -/
theorem skippedSeen_media {p : Packet} (hmedia : p.channel ≠ .message) :
    ((start link reception).after (events ++ [.packet p])).skippedSeen =
      ((start link reception).after (events ++ [.packet p])).lost := by
  have hle := skippedSeen_le_lost link reception events
  have hlost := lost_concat link reception events (.packet p)
  have hseen := (((start link reception).after events).handle_media hmedia).1
  rw [after_concat] at hlost ⊢
  omega

end Start

/-! ### The ledger -/

/-- The skipped frames of a run, by the window that reports them. -/
structure Ledger where
  closed : List (Finset (Channel × Int32)) := []
  /-- What is in the count of the open window. -/
  current : Finset (Channel × Int32) := ∅
  /-- What was given up and is in no count yet. -/
  pending : Finset (Channel × Int32) := ∅

namespace Ledger

/-- What each window reports, the open one last. -/
def reports (l : Ledger) : List (Finset (Channel × Int32)) :=
  l.closed ++ [l.current]

/-- How many windows report a frame. -/
def timesReported (l : Ledger) (x : Channel × Int32) : Nat :=
  l.reports.countP fun s => x ∈ s

/-- Enters an event. -/
def enter (l : Ledger) (r : Receiver) (e : Event) : Ledger :=
  let pending := l.pending ∪ r.givenUp [e]
  match e with
  | .packet p =>
    if p.channel = .message then { l with pending }
    else { l with current := l.current ∪ pending ∪ r.turnedAway [e], pending := ∅ }
  | .tick now =>
    if closes r (.tick now) = [] then { l with pending }
    else { closed := l.closed ++ [l.current], current := ∅, pending }
  | _ => { l with pending }

/-- Enters the events of a run. -/
def enterAll : Ledger → Receiver → List Event → Ledger
  | l, _, [] => l
  | l, r, e :: rest => enterAll (l.enter r e) (r.handle e) rest

theorem enterAll_concat (l : Ledger) (r : Receiver) (events : List Event) (e : Event) :
    l.enterAll r (events ++ [e]) = (l.enterAll r events).enter (r.after events) e := by
  induction events generalizing l r with
  | nil => rfl
  | cons d rest ih => exact ih (l.enter r d) (r.handle d)

theorem timesReported_eq (l : Ledger) (x : Channel × Int32) :
    l.timesReported x = l.closed.countP (fun s => x ∈ s) + if x ∈ l.current then 1 else 0 := by
  simp [timesReported, reports, List.countP_append, List.countP_singleton]

end Ledger

/-- The ledger of a run. -/
def ledger (r : Receiver) (events : List Event) : Ledger :=
  Ledger.enterAll {} r events

/-- A ledger that agrees with the windows and with what was skipped. -/
structure Ledger.Agrees (l : Ledger) (r : Receiver) (events : List Event) : Prop where
  closed : l.closed.map Finset.card = (record closes r events).map Meter.skipped
  current : l.current.card = (r.after events).meter.skipped
  pending : l.pending.card + (r.after events).skippedSeen = (r.after events).lost
  /-- What was skipped is noted once. -/
  once : ∀ x, l.timesReported x + (if x ∈ l.pending then 1 else 0) =
    if x ∈ r.skipped events then 1 else 0

namespace Ledger.Agrees

variable {l : Ledger} {r : Receiver} {events : List Event}

theorem disjoint_current_pending (h : l.Agrees r events) : Disjoint l.current l.pending := by
  refine Finset.disjoint_left.mpr fun x hcurrent hpending => ?_
  have honce := h.once x
  rw [Ledger.timesReported_eq, if_pos hcurrent, if_pos hpending] at honce
  split at honce <;> omega

theorem mem_skipped (h : l.Agrees r events) {x : Channel × Int32}
    (hx : x ∈ l.current ∨ x ∈ l.pending) : x ∈ r.skipped events := by
  have honce := h.once x
  rw [Ledger.timesReported_eq] at honce
  by_contra hnot
  rw [if_neg hnot] at honce
  rcases hx with hx | hx
  · rw [if_pos hx] at honce
    omega
  · rw [if_pos hx] at honce
    omega

end Ledger.Agrees

theorem Ledger.enter_media (l : Ledger) (r : Receiver) {p : Packet}
    (hmedia : p.channel ≠ .message) :
    l.enter r (.packet p) =
      { l with
        current := l.current ∪ (l.pending ∪ r.givenUp [.packet p]) ∪ r.turnedAway [.packet p]
        pending := ∅ } :=
  if_neg hmedia

theorem Ledger.enter_other (l : Ledger) (r : Receiver) {e : Event}
    (hother : ∀ p, e = .packet p → p.channel = .message) :
    l.enter r e =
      if closes r e = [] then { l with pending := l.pending ∪ r.givenUp [e] }
      else
        { closed := l.closed ++ [l.current]
          current := ∅
          pending := l.pending ∪ r.givenUp [e] } := by
  cases e with
  | packet p => exact if_pos (hother p rfl)
  | tick now => rfl
  | consume => rfl
  | elsewhere link => rfl

/-- What is in one of two disjoint sets is counted once. -/
theorem indicator_union {s t : Finset (Channel × Int32)} (h : Disjoint s t) (x : Channel × Int32) :
    (if x ∈ s ∪ t then 1 else 0) = (if x ∈ s then 1 else 0) + if x ∈ t then 1 else 0 := by
  by_cases hs : x ∈ s
  · have ht : x ∉ t := Finset.disjoint_left.mp h hs
    simp [hs, ht]
  · simp [hs]

section Start

variable (link : Link) (reception : Configuration.Reception) (events : List Event) (e : Event)

theorem skipped_concat :
    (start link reception).skipped (events ++ [e]) =
      (start link reception).skipped events ∪
        (((start link reception).after events).givenUp [e] ∪
          ((start link reception).after events).turnedAway [e]) := by
  rw [skipped, givenUp_append, turnedAway_append, skipped, Finset.union_union_union_comm]

/-- What an event skips was not skipped before, and it skips it in one way. -/
theorem skipped_fresh :
    Disjoint ((start link reception).skipped events)
        (((start link reception).after events).givenUp [e]) ∧
      Disjoint ((start link reception).skipped events)
        (((start link reception).after events).turnedAway [e]) ∧
      Disjoint (((start link reception).after events).givenUp [e])
        (((start link reception).after events).turnedAway [e]) := by
  have hboth := disjoint_givenUp_turnedAway link reception (events ++ [e])
  rw [givenUp_append, turnedAway_append, Finset.disjoint_union_left, Finset.disjoint_union_right,
    Finset.disjoint_union_right] at hboth
  obtain ⟨⟨-, hrefused⟩, hgiven, hnow⟩ := hboth
  exact ⟨Finset.disjoint_union_left.mpr ⟨disjoint_givenUp link reception events e, hgiven.symm⟩,
    Finset.disjoint_union_left.mpr ⟨hrefused, disjoint_turnedAway link reception events e⟩, hnow⟩

theorem card_turnedAway (r : Receiver) : (r.turnedAway [e]).card = (r.refuses e).length := by
  rw [turnedAway, record, record, List.append_nil]
  rcases r.offers_eq e with hnone | ⟨f, hone⟩
  · simp [refuses, hnone]
  · cases henqueue : r.frames.enqueue? f <;> simp [refuses, hone, henqueue]

variable {link reception events e}

namespace Ledger.Agrees

variable {l : Ledger}

theorem current_subset (h : l.Agrees (start link reception) events) :
    l.current ⊆ (start link reception).skipped events :=
  fun _ hx => h.mem_skipped (Or.inl hx)

theorem pending_subset (h : l.Agrees (start link reception) events) :
    l.pending ⊆ (start link reception).skipped events :=
  fun _ hx => h.mem_skipped (Or.inr hx)

/-- Where a frame is noted, with what an event skips. -/
theorem once_concat (h : l.Agrees (start link reception) events) (x : Channel × Int32) :
    (if x ∈ (start link reception).skipped (events ++ [e]) then 1 else 0) =
      l.timesReported x + (if x ∈ l.pending then 1 else 0) +
        ((if x ∈ ((start link reception).after events).givenUp [e] then 1 else 0) +
          if x ∈ ((start link reception).after events).turnedAway [e] then 1 else 0) := by
  obtain ⟨hgiven, hrefused, hapart⟩ := skipped_fresh link reception events e
  rw [skipped_concat, indicator_union (Finset.disjoint_union_right.mpr ⟨hgiven, hrefused⟩),
    indicator_union hapart, h.once]

/-- With a media packet all that is pending is reported, and what it skips itself. -/
theorem enter_media (h : l.Agrees (start link reception) events) {p : Packet}
    (hmedia : p.channel ≠ .message) :
    (l.enter ((start link reception).after events) (.packet p)).Agrees (start link reception)
      (events ++ [.packet p]) := by
  obtain ⟨hgiven, hrefused, hapart⟩ := skipped_fresh link reception events (.packet p)
  have hpending := Finset.disjoint_of_subset_left h.pending_subset hgiven
  have hcurrent : Disjoint l.current
      (l.pending ∪ ((start link reception).after events).givenUp [.packet p]) :=
    Finset.disjoint_union_right.mpr
      ⟨h.disjoint_current_pending, Finset.disjoint_of_subset_left h.current_subset hgiven⟩
  have hall : Disjoint
      (l.current ∪ (l.pending ∪ ((start link reception).after events).givenUp [.packet p]))
      (((start link reception).after events).turnedAway [.packet p]) :=
    Finset.disjoint_union_left.mpr
      ⟨Finset.disjoint_of_subset_left h.current_subset hrefused,
        Finset.disjoint_union_left.mpr
          ⟨Finset.disjoint_of_subset_left h.pending_subset hrefused, hapart⟩⟩
  rw [Ledger.enter_media _ _ hmedia]
  exact
    { closed := by
        rw [record_concat, List.map_append, ← h.closed]
        exact (List.append_nil _).symm
      current := by
        have hcount := h.current
        have hahead := h.pending
        have hlost := lost_concat link reception events (.packet p)
        have hseen := skippedSeen_media link reception events hmedia
        have hmeter := (((start link reception).after events).handle_media hmedia).2.1
        rw [after_concat] at hlost hseen ⊢
        rw [Finset.card_union_of_disjoint hall, Finset.card_union_of_disjoint hcurrent,
          Finset.card_union_of_disjoint hpending, card_turnedAway]
        omega
      pending := by
        rw [Finset.card_empty, Nat.zero_add]
        exact skippedSeen_media link reception events hmedia
      once := by
        intro x
        rw [h.once_concat, timesReported_eq, timesReported_eq, indicator_union hall,
          indicator_union hcurrent, indicator_union hpending, if_neg (Finset.notMem_empty x)]
        dsimp only
        omega }

/-- With any other event what it gives up becomes pending, whether or not the window is
closed. -/
theorem enter_other (h : l.Agrees (start link reception) events)
    (hother : ∀ p, e = .packet p → p.channel = .message) :
    (l.enter ((start link reception).after events) e).Agrees (start link reception)
      (events ++ [e]) := by
  obtain ⟨hgiven, -⟩ := skipped_fresh link reception events e
  have hpending := Finset.disjoint_of_subset_left h.pending_subset hgiven
  obtain ⟨hseen, hcloses⟩ := ((start link reception).after events).handle_other hother
  have hahead : (l.pending ∪ ((start link reception).after events).givenUp [e]).card +
      ((start link reception).after (events ++ [e])).skippedSeen =
        ((start link reception).after (events ++ [e])).lost := by
    rw [Finset.card_union_of_disjoint hpending, lost_concat, ← h.pending, after_concat, hseen]
    omega
  have hnone (x : Channel × Int32) :
      x ∉ ((start link reception).after events).turnedAway [e] := by
    have hoffers := ((start link reception).after events).offers_other hother
    simp [turnedAway, record, refuses, hoffers]
  rw [Ledger.enter_other _ _ hother]
  rcases hcloses with ⟨hopen, hskipped, -⟩ | ⟨window, hclosed, hskipped, -, hskipped', -⟩
  · rw [if_pos hopen]
    exact
      { closed := by rw [record_concat, hopen, List.append_nil, h.closed]
        current := by rw [after_concat, hskipped, h.current]
        pending := hahead
        once := by
          intro x
          rw [h.once_concat, if_neg (hnone x), timesReported_eq, timesReported_eq,
            indicator_union hpending]
          dsimp only
          omega }
  · rw [if_neg (by rw [hclosed]; exact List.cons_ne_nil _ _)]
    exact
      { closed := by
          rw [record_concat, hclosed, List.map_append, List.map_append, h.closed,
            List.map_singleton, List.map_singleton, hskipped, h.current]
        current := by rw [after_concat, hskipped', Finset.card_empty]
        pending := hahead
        once := by
          intro x
          rw [h.once_concat, if_neg (hnone x), timesReported_eq, timesReported_eq,
            indicator_union hpending, if_neg (Finset.notMem_empty x), List.countP_append,
            List.countP_singleton]
          simp only [decide_eq_true_eq]
          omega }

end Ledger.Agrees

/-- **The ledger of a run agrees with its windows.** -/
theorem ledger_agrees (link : Link) (reception : Configuration.Reception) (events : List Event) :
    (ledger (start link reception) events).Agrees (start link reception) events := by
  induction events using List.reverseRecOn with
  | nil => exact ⟨rfl, rfl, rfl, fun x => by rw [skipped_nil]; rfl⟩
  | append_singleton events e ih =>
    rw [ledger, Ledger.enterAll_concat]
    rcases media_or_other e with ⟨p, rfl, hmedia⟩ | hother
    · exact ih.enter_media hmedia
    · exact ih.enter_other hother

/--
**Frames are counted once.**  Over any run of a receiver that just started:

* each window counts as many skipped frames as it reports in the ledger;
* no frame is reported by two windows;
* after a media packet every frame that was skipped so far is reported, and no other;
* the skipped frames counted are then those that the two assemblies count and those that
  were refused;
* the rendered frames counted are those that the queue took in;
* the units that the assemblies count as handed on were taken in or refused.
-/
theorem windows_count_frames_once (link : Link) (reception : Configuration.Reception)
    (events : List Event) {p : Packet} (hmedia : p.channel ≠ .message) :
    let begun := start link reception
    (∀ run, (begun.windows run).map Meter.skipped =
        (ledger begun run).reports.map Finset.card ∧
      ∀ x, (ledger begun run).timesReported x ≤ 1) ∧
      let run := events ++ [.packet p]
      let r := begun.after run
      (∀ x, (ledger begun run).timesReported x = if x ∈ begun.skipped run then 1 else 0) ∧
        total Meter.skipped begun run =
          r.video.counts.skipped + r.audio.counts.skipped + (record refuses begun run).length ∧
        total Meter.rendered begun run = (record enqueues begun run).length ∧
        r.video.counts.completed + r.audio.counts.completed =
          (record enqueues begun run).length + (record refuses begun run).length := by
  intro begun
  refine ⟨fun run => ?_, ?_⟩
  · have hagrees : (ledger begun run).Agrees begun run := ledger_agrees link reception run
    refine ⟨?_, fun x => ?_⟩
    · rw [windows, Ledger.reports, List.map_append, List.map_append, hagrees.closed,
        List.map_singleton, List.map_singleton, hagrees.current]
    · have honce := hagrees.once x
      split at honce <;> split at honce <;> omega
  · intro run r
    have hseen : r.skippedSeen = r.lost := skippedSeen_media link reception events hmedia
    have hagrees : (ledger begun run).Agrees begun run := ledger_agrees link reception run
    have hpending : (ledger begun run).pending = ∅ := by
      have hahead : (ledger begun run).pending.card + r.skippedSeen = r.lost := hagrees.pending
      exact Finset.card_eq_zero.mp (by omega)
    refine ⟨fun x => ?_, ?_, ?_, ?_⟩
    · rw [← hagrees.once x, hpending, if_neg (Finset.notMem_empty x), Nat.add_zero]
    · have htotal : total Meter.skipped begun run + 0 =
          0 + r.skippedSeen + (record refuses begun run).length := total_skipped begun run
      have hlost : r.lost = r.video.counts.skipped + r.audio.counts.skipped := rfl
      omega
    · exact (total_rendered begun run).trans (Nat.zero_add _)
    · exact (completed_after link reception run).trans (length_record_offers begun run)

end Start

/-- A queue of one frame, and a window that is closed on the way: unit 0 is given up when
unit 1 is handed on, unit 2 is refused. -/
theorem two_windows_count_two_skipped :
    let link : Link :=
      { connection := .established .client (.v4 .unspecified 0) { key := .constant 1 } 0
        network := {} }
    let begun := start link { ringSize := 2, queueCapacity := 1 }
    let run : List Event :=
      [.packet { id := 0, count := 2 }, .packet { id := 1 }, .tick Time.second, .packet { id := 2 }]
    total Meter.skipped begun run = 2 ∧ total Meter.rendered begun run = 1 ∧
      (begun.windows run).map Meter.skipped = [1, 1] ∧
      (ledger begun run).timesReported (.video, 0) = 1 ∧
      (ledger begun run).timesReported (.video, 2) = 1 := by
  intro link begun run
  obtain ⟨-, hreported, hskipped, hrendered, -⟩ :=
    windows_count_frames_once link { ringSize := 2, queueCapacity := 1 }
      [.packet { id := 0, count := 2 }, .packet { id := 1 }, .tick Time.second]
      (p := { id := 2 }) (by decide)
  refine ⟨hskipped.trans (by decide +kernel), hrendered.trans (by decide +kernel),
    by decide +kernel, (hreported _).trans (by decide +kernel),
    (hreported _).trans (by decide +kernel)⟩

end Receiver

end Framecast
