/-
Two ends and the network between them, moment by moment.

What happens next is what is due first: a datagram reaches the end it was sent to, or the read
of an end times out.  The end hears it by the program's own step, and what it sends then goes on
its way to the other end.  The network delivers in order and in less than the interval in which
a challenge is sent again, and it may lose one datagram in all.

`Inevitable` is what comes true whatever the network does.
-/
import Framecast.Proofs.Authentication.Agreement
import Framecast.Proofs.Authentication.Alive

namespace Framecast

open Authentication (Side Ends End resendInterval sendsChallenge)

/-- A datagram under way. -/
structure Flight where
  datagram : Bytes
  /-- When it arrives. -/
  due : Int

/-- What becomes of datagrams sent at a moment: each one follows those that are under way
already, or it is lost if the network may still lose one. -/
inductive Carried (now : Int) : List Bytes → List Flight → Bool → List Flight → Bool → Prop
  | nil (queue : List Flight) (mayLose : Bool) : Carried now [] queue mayLose queue mayLose
  | send {d : Bytes} {later : List Bytes} {queue after : List Flight} {mayLose still : Bool}
      {due : Int} (hdue : now ≤ due) (hlate : due < now + (resendInterval : Int))
      (horder : ∀ f ∈ queue, f.due ≤ due)
      (hlater : Carried now later (queue ++ [⟨d, due⟩]) mayLose after still) :
      Carried now (d :: later) queue mayLose after still
  | lose {d : Bytes} {later : List Bytes} {queue after : List Flight} {still : Bool}
      (hlater : Carried now later queue false after still) :
      Carried now (d :: later) queue true after still

/-- Two ends, and what is under way between them. -/
structure Transit where
  ends : Ends
  /-- What is under way to each end, in the order it was sent. -/
  underWay : Side → List Flight
  /-- Whether the network may still lose a datagram. -/
  mayLose : Bool

namespace Authentication.Side

variable {α : Type}

/-- One thing for a side and another for the other side. -/
def pick (side : Side) (own others : α) (x : Side) : α :=
  if x = side then own else others

@[simp] theorem pick_self (side : Side) (own others : α) : side.pick own others side = own :=
  if_pos rfl

@[simp] theorem pick_other (side : Side) (own others : α) :
    side.pick own others side.other = others :=
  if_neg side.other_ne

/-- What holds of a side and of the other side holds of both. -/
theorem both {P : Side → Prop} (side : Side) (hown : P side) (hothers : P side.other) (x : Side) :
    P x := by
  by_cases hx : x = side
  · rw [hx]
    exact hown
  · rw [Side.eq_other_of_ne hx]
    exact hothers

end Authentication.Side

namespace Transit

/-- Nothing happens before this moment. -/
def First (s : Transit) (t : Int) : Prop :=
  ∀ x, t ≤ (s.ends x).lapse ∧ ∀ f ∈ s.underWay x, t ≤ f.due

/-- What may come to an end next, when it does, and what is under way to the end then. -/
inductive Comes (s : Transit) (x : Side) : Event → Int → List Flight → Prop
  | arrival {f : Flight} {rest : List Flight} (h : s.underWay x = f :: rest) :
      Comes s x ⟨.datagram f.datagram (s.ends x).connection.peer,
        (f.due - (s.ends x).network.now).toNat⟩ f.due rest
  | lapse : Comes s x .quiet (s.ends x).lapse (s.underWay x)

/-- What an end sends when it hears the event. -/
def replies (s : Transit) (x : Side) (event : Event) : List Bytes :=
  Authentication.sentSince (s.ends x).network ((s.ends x).hear event).network

/-- An end has heard an event. -/
def after (s : Transit) (x : Side) (event : Event) (rest queue : List Flight) (still : Bool) :
    Transit :=
  { ends := Authentication.deliver s.ends x event
    underWay := x.pick rest queue
    mayLose := still }

/-- What is due first happens. -/
inductive Step (s : Transit) : Transit → Prop
  | hear (x : Side) {event : Event} {t : Int} {rest queue : List Flight} {still : Bool}
      (hcomes : s.Comes x event t rest) (hfirst : s.First t)
      (hcarried : Carried t (s.replies x event) (s.underWay x.other) s.mayLose queue still) :
      Step s (s.after x event rest queue still)

/-- Whatever happens, `P` comes true, and until then something happens. -/
inductive Inevitable (P : Transit → Prop) : Transit → Prop
  | now {s : Transit} (h : P s) : Inevitable P s
  | later {s : Transit} (hsome : ∃ t, s.Step t) (hall : ∀ t, s.Step t → Inevitable P t) :
      Inevitable P s

theorem Inevitable.mono {P Q : Transit → Prop} (h : ∀ s, P s → Q s) {s : Transit}
    (hs : Inevitable P s) : Inevitable Q s := by
  induction hs with
  | now hp => exact .now (h _ hp)
  | later hsome _ ih => exact .later hsome ih

/-- What comes true before a measure is used up is inevitable. -/
theorem inevitable_of_measure {P : Transit → Prop} (measure : Transit → Nat)
    (inv : Transit → Prop) (hstep : ∀ s, inv s → P s ∨
      (∃ t, s.Step t) ∧ ∀ t, s.Step t → inv t ∧ measure t < measure s)
    {s : Transit} (h : inv s) : Inevitable P s := by
  induction hm : measure s using Nat.strongRecOn generalizing s with
  | ind m ih =>
    rcases hstep s h with hp | ⟨hsome, hall⟩
    · exact .now hp
    · refine .later hsome fun t ht => ?_
      obtain ⟨hinv, hless⟩ := hall t ht
      exact ih (measure t) (hm ▸ hless) hinv rfl

section After

variable (s : Transit) (x : Side) (event : Event) (rest queue : List Flight) (still : Bool)

@[simp] theorem after_ends_self :
    (s.after x event rest queue still).ends x = (s.ends x).hear event :=
  Function.update_self ..

@[simp] theorem after_ends_other :
    (s.after x event rest queue still).ends x.other = s.ends x.other :=
  Function.update_of_ne x.other_ne ..

@[simp] theorem after_underWay_self : (s.after x event rest queue still).underWay x = rest :=
  x.pick_self ..

@[simp] theorem after_underWay_other :
    (s.after x event rest queue still).underWay x.other = queue :=
  x.pick_other ..

end After

/-- Whatever comes next comes no earlier. -/
theorem First.le_of_comes {s : Transit} {x : Side} {event : Event} {clock t : Int}
    {rest : List Flight} (h : s.First clock) (hcomes : s.Comes x event t rest) : clock ≤ t := by
  cases hcomes with
  | arrival hqueue => exact (h x).2 _ (by rw [hqueue]; exact List.mem_cons_self ..)
  | lapse => exact (h x).1

/-! ### Something happens -/

/-- What is under way to each end arrives in order. -/
def InOrder (s : Transit) : Prop :=
  ∀ x, (s.underWay x).Pairwise (·.due ≤ ·.due)

theorem exists_comes (s : Transit) (x : Side) (h : s.InOrder) :
    ∃ event t rest, s.Comes x event t rest ∧ t ≤ (s.ends x).lapse ∧
      ∀ f ∈ s.underWay x, t ≤ f.due := by
  have hqueue := h x
  cases hx : s.underWay x with
  | nil => exact ⟨_, _, _, .lapse, Int.le_refl _, fun f hf => absurd hf List.not_mem_nil⟩
  | cons first rest =>
    rw [hx, List.pairwise_cons] at hqueue
    by_cases hlapse : (s.ends x).lapse ≤ first.due
    · refine ⟨_, _, _, .lapse, Int.le_refl _, fun f hf => ?_⟩
      rcases List.mem_cons.mp hf with rfl | hrest
      · exact hlapse
      · exact Int.le_trans hlapse (hqueue.1 f hrest)
    · refine ⟨_, _, _, .arrival hx, by omega, fun f hf => ?_⟩
      rcases List.mem_cons.mp hf with rfl | hrest
      · exact Int.le_refl _
      · exact hqueue.1 f hrest

/-- Something is due first. -/
theorem exists_first {s : Transit} (h : s.InOrder) :
    ∃ x event t rest, s.Comes x event t rest ∧ s.First t := by
  obtain ⟨event, t, rest, hcomes, hlapse, hdues⟩ := s.exists_comes .left h
  obtain ⟨event', t', rest', hcomes', hlapse', hdues'⟩ := s.exists_comes .right h
  by_cases hle : t ≤ t'
  · refine ⟨.left, event, t, rest, hcomes, Side.both .left ⟨hlapse, hdues⟩ ?_⟩
    exact ⟨Int.le_trans hle hlapse', fun f hf => Int.le_trans hle (hdues' f hf)⟩
  · have hle' : t' ≤ t := by omega
    refine ⟨.right, event', t', rest', hcomes', Side.both .right ⟨hlapse', hdues'⟩ ?_⟩
    exact ⟨Int.le_trans hle' hlapse, fun f hf => Int.le_trans hle' (hdues f hf)⟩

/-- The network can carry what is sent, if nothing that is under way takes too long. -/
theorem exists_carried {now : Int} (out : List Bytes) (queue : List Flight) (mayLose : Bool)
    (h : ∀ f ∈ queue, f.due < now + (resendInterval : Int)) :
    ∃ after, Carried now out queue mayLose after mayLose := by
  have hlatest : ∃ due, now ≤ due ∧ due < now + (resendInterval : Int) ∧
      ∀ f ∈ queue, f.due ≤ due := by
    induction queue with
    | nil =>
      have hinterval : 0 < resendInterval := by decide
      exact ⟨now, Int.le_refl _, by omega, fun f hf => absurd hf List.not_mem_nil⟩
    | cons first rest ih =>
      obtain ⟨due, hdue, hlate, horder⟩ := ih fun f hf => h f (List.mem_cons_of_mem _ hf)
      have hfirst := h first (List.mem_cons_self ..)
      refine ⟨max due first.due, by omega, by omega, fun f hf => ?_⟩
      rcases List.mem_cons.mp hf with rfl | hrest
      · exact Int.le_max_right ..
      · exact Int.le_trans (horder f hrest) (Int.le_max_left ..)
  obtain ⟨due, hdue, hlate, horder⟩ := hlatest
  clear h
  induction out generalizing queue with
  | nil => exact ⟨queue, .nil queue mayLose⟩
  | cons d later ih =>
    obtain ⟨after, hafter⟩ := ih (queue ++ [⟨d, due⟩]) fun f hf => by
      rcases List.mem_append.mp hf with hold | hnew
      · exact horder f hold
      · exact Int.le_of_eq (congrArg Flight.due (List.mem_singleton.mp hnew))
    exact ⟨after, .send hdue hlate horder hafter⟩

/-- **There is always something that happens**, as long as what is under way is in order and
none of it takes too long. -/
theorem exists_step {s : Transit} {clock : Int} (horder : s.InOrder) (hclock : s.First clock)
    (hdues : ∀ x, ∀ f ∈ s.underWay x, f.due < clock + (resendInterval : Int)) :
    ∃ t, s.Step t := by
  obtain ⟨x, event, t, rest, hcomes, hfirst⟩ := exists_first horder
  obtain ⟨queue, hcarried⟩ : ∃ queue,
      Carried t (s.replies x event) (s.underWay x.other) s.mayLose queue s.mayLose :=
    exists_carried _ _ _ fun f hf => by
      have hlate := hdues x.other f hf
      have hle := hclock.le_of_comes hcomes
      omega
  exact ⟨_, .hear x hcomes hfirst hcarried⟩

/-! ### What becomes of datagrams -/

section Carried

variable {now : Int} {d : Bytes} {out : List Bytes} {queue after : List Flight}
  {mayLose still : Bool}

/-- What is carried follows what is under way, in order and before an interval is over. -/
theorem carried_append (h : Carried now out queue mayLose after still) :
    (∃ more, after = queue ++ more ∧ ∀ f ∈ more,
      f.datagram ∈ out ∧ now ≤ f.due ∧ f.due < now + (resendInterval : Int)) ∧
      (queue.Pairwise (·.due ≤ ·.due) → after.Pairwise (·.due ≤ ·.due)) := by
  induction h with
  | nil => exact ⟨⟨[], (List.append_nil _).symm, fun f hf => absurd hf List.not_mem_nil⟩, id⟩
  | @send d later queue after mayLose still due hdue hlate horder hlater ih =>
    obtain ⟨⟨more, rfl, hmore⟩, hpairwise⟩ := ih
    refine ⟨⟨⟨d, due⟩ :: more, List.append_assoc .., fun f hf => ?_⟩, fun hqueue => ?_⟩
    · rcases List.mem_cons.mp hf with rfl | hrest
      · exact ⟨List.mem_cons_self .., hdue, hlate⟩
      · obtain ⟨hmem, hbounds⟩ := hmore f hrest
        exact ⟨List.mem_cons_of_mem _ hmem, hbounds⟩
    · refine hpairwise (List.pairwise_append.mpr ⟨hqueue, List.pairwise_singleton .., ?_⟩)
      intro f hf g hg
      rw [List.mem_singleton.mp hg]
      exact horder f hf
  | lose hlater ih =>
    obtain ⟨⟨more, rfl, hmore⟩, hpairwise⟩ := ih
    exact ⟨⟨more, rfl, fun f hf => ⟨List.mem_cons_of_mem _ (hmore f hf).1, (hmore f hf).2⟩⟩,
      hpairwise⟩

theorem carried_nil (h : Carried now [] queue mayLose after still) :
    after = queue ∧ still = mayLose := by
  cases h
  exact ⟨rfl, rfl⟩

/-- One datagram is under way now or lost. -/
theorem carried_one (h : Carried now [d] queue mayLose after still) :
    (∃ due, now ≤ due ∧ due < now + (resendInterval : Int) ∧ (∀ f ∈ queue, f.due ≤ due) ∧
        after = queue ++ [⟨d, due⟩] ∧ still = mayLose) ∨
      mayLose = true ∧ after = queue ∧ still = false := by
  cases h with
  | send hdue hlate horder hlater =>
    obtain ⟨rfl, rfl⟩ := carried_nil hlater
    exact Or.inl ⟨_, hdue, hlate, horder, rfl, rfl⟩
  | lose hlater =>
    obtain ⟨rfl, rfl⟩ := carried_nil hlater
    exact Or.inr ⟨rfl, rfl, rfl⟩

/-- What is under way if nothing was before a datagram is sent. -/
theorem carried_alone (h : Carried now [d] [] mayLose after still) :
    (∀ f ∈ after, f.datagram = d ∧ now ≤ f.due ∧ f.due < now + (resendInterval : Int)) ∧
      after.Pairwise (·.due ≤ ·.due) ∧
        (after ≠ [] ∧ still = mayLose ∨ mayLose = true ∧ still = false) := by
  obtain ⟨⟨more, rfl, hmore⟩, hpairwise⟩ := carried_append h
  refine ⟨fun f hf => ?_, hpairwise List.Pairwise.nil, ?_⟩
  · obtain ⟨hmem, hbounds⟩ := hmore f hf
    exact ⟨List.mem_singleton.mp hmem, hbounds⟩
  · rcases carried_one h with ⟨due, -, -, -, hsent, hstill⟩ | ⟨hmay, -, hstill⟩
    · exact Or.inl ⟨by rw [hsent]; exact List.cons_ne_nil _ _, hstill⟩
    · exact Or.inr ⟨hmay, hstill⟩

/-- Once something was lost, nothing more is. -/
theorem eq_false_of_carried (h : Carried now out queue mayLose after still)
    (hlost : mayLose = false) : still = false := by
  induction h with
  | nil => exact hlost
  | send _ _ _ _ ih => exact ih hlost
  | lose => cases hlost

end Carried

end Transit

end Framecast
