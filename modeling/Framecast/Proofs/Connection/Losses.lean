/-
A setup outlives the loss of one datagram.

Time is counted in intervals from the moment at which the first end started; the other end has
started one interval later at most.  Nothing that matters to an end is lost as long as it is
`Intact`: the proof of its nonce is under way or its challenge is, and so it is verified within
three intervals and sends no challenge after that.  An end that has lost one hears nothing but
the challenges of its intact peer, for four intervals at most.  Then its read times out, so it
`Mends`: it sends its challenge again and is verified within seven intervals.

Each end is alive for ten.  `Timely` is the invariant of a step, and `toll` is what each step
uses up: time, or a datagram that calls for fewer than itself.
-/
import Framecast.Proofs.Connection.Transit
import Mathlib.Algebra.Ring.Nat

namespace Framecast.Transit

open Authentication (Side Progress End resendInterval challenge proof challenge_ne_proof
  sendsChallenge sendsChallenge_challenge sendsChallenge_proof)

variable {s : Transit} {x : Side} {event : Event} {rest queue : List Flight} {still : Bool}
  {t0 clock t : Int} {p : Side → Progress} {q : Progress} {out : List Bytes}

/-! ### What an end may hope for -/

/-- The challenge of the end is under way and arrives before the moment. -/
def Asks (s : Transit) (x : Side) (due : Int) : Prop :=
  ∃ f ∈ s.underWay x.other, f.datagram = challenge (s.ends x).nonce ∧ f.due < due

/-- The proof that the end waits for is under way and arrives before the moment. -/
def Owed (s : Transit) (x : Side) (due : Int) : Prop :=
  ∃ f ∈ s.underWay x, f.datagram = proof (s.ends x).key (s.ends x).nonce ∧ f.due < due

/-- Nothing that matters to the end was lost. -/
structure Intact (s : Transit) (t0 : Int) (x : Side) (q : Progress) : Prop where
  asked : ∀ f ∈ s.underWay x.other, f.datagram = challenge (s.ends x).nonce →
    f.due < t0 + 4 * (resendInterval : Int)
  hope : q.verified = true ∨ s.Owed x (t0 + 3 * (resendInterval : Int)) ∨
    s.Asks x (t0 + 2 * (resendInterval : Int))

/-- Something was lost, and the end will make up for it. -/
def Mends (s : Transit) (t0 : Int) (x : Side) (q : Progress) : Prop :=
  q.verified = true ∨ s.Owed x (t0 + 7 * (resendInterval : Int)) ∨
    s.Asks x (t0 + 6 * (resendInterval : Int)) ∨
      (s.ends x).network.now < t0 + 4 * (resendInterval : Int)

/-- Nothing that matters was lost, or all that was mattered to one end. -/
def Survives (s : Transit) (t0 : Int) (p : Side → Progress) : Prop :=
  (∀ x, s.Intact t0 x (p x)) ∨
    s.mayLose = false ∧ ∃ x, s.Mends t0 x (p x) ∧ s.Intact t0 x.other (p x.other)

/-- Both ends are on their way, and have come to `p` at the moment `clock`. -/
structure Timely (s : Transit) (t0 clock : Int) (p : Side → Progress) : Prop where
  alive : ∀ x, (s.ends x).Alive (t0 + 10 * (resendInterval : Int)) (p x)
  keys : ∀ x, (s.ends x.other).key = (s.ends x).key
  past : ∀ x, (s.ends x).network.now ≤ clock
  first : s.First clock
  dues : ∀ x, ∀ f ∈ s.underWay x, f.due < clock + (resendInterval : Int)
  inOrder : s.InOrder
  means : ∀ x, ∀ f ∈ s.underWay x, f.datagram = challenge (s.ends x.other).nonce ∨
    f.datagram = proof (s.ends x).key (s.ends x).nonce ∧ (p x.other).answered = true
  answered : ∀ x, (p x).verified = true → (p x.other).answered = true
  survives : s.Survives t0 p

theorem Intact.mends (h : s.Intact t0 x q) : s.Mends t0 x q := by
  rcases h.hope with hdone | ⟨f, hf, hmeans, hdue⟩ | ⟨f, hf, hmeans, hdue⟩
  · exact Or.inl hdone
  · exact Or.inr (Or.inl ⟨f, hf, hmeans, by omega⟩)
  · exact Or.inr (Or.inr (Or.inl ⟨f, hf, hmeans, by omega⟩))

/-- Each end will be verified, or is. -/
theorem Survives.mends (h : s.Survives t0 p) (x : Side) : s.Mends t0 x (p x) := by
  rcases h with hintact | ⟨-, y, hmends, hintact⟩
  · exact (hintact x).mends
  · exact Side.both (P := fun x => s.Mends t0 x (p x)) y hmends hintact.mends x

/-- What an end that is not verified hopes for comes within seven intervals. -/
theorem Mends.before (h : s.Mends t0 x q) (hopen : q.verified = false)
    (halive : (s.ends x).Alive (t0 + 10 * (resendInterval : Int)) q) (hfirst : s.First t) :
    t < t0 + 7 * (resendInterval : Int) := by
  rcases h with hdone | ⟨f, hf, -, hdue⟩ | ⟨f, hf, -, hdue⟩ | hnow
  · rw [hopen] at hdone
    cases hdone
  · have := (hfirst x).2 f hf
    omega
  · have := (hfirst x.other).2 f hf
    omega
  · have hlapse := (hfirst x).1
    rw [halive.lapse_eq hopen] at hlapse
    omega

/-- **As long as an end is not done, something happens within seven intervals.** -/
theorem Timely.before (h : s.Timely t0 clock p) (hopen : (p x).isDone = false)
    (hfirst : s.First t) : t < t0 + 7 * (resendInterval : Int) := by
  have hunverified : ∃ y, (p y).verified = false := by
    cases hverified : (p x).verified with
    | false => exact ⟨x, hverified⟩
    | true =>
      -- The end lacks a challenge to answer, so the other one is not verified.
      refine ⟨x.other, ?_⟩
      have hanswered : (p x).answered = false := by
        rwa [Progress.isDone, hverified, Bool.and_true] at hopen
      cases hother : (p x.other).verified with
      | false => rfl
      | true =>
        have := h.answered x.other hother
        rw [Side.other_other, hanswered] at this
        cases this
  obtain ⟨y, hy⟩ := hunverified
  exact (h.survives.mends y).before hy (h.alive y) hfirst

/-- **Two ends that have just sent their challenges are on their way**, if one of the challenges
was lost at most and the other one is under way in time. -/
theorem timely_of_challenges
    (halive : ∀ x, (s.ends x).Alive (t0 + 10 * (resendInterval : Int)) {})
    (hkeys : ∀ x, (s.ends x.other).key = (s.ends x).key)
    (hnow : ∀ x, t0 ≤ (s.ends x).network.now ∧ (s.ends x).network.now ≤ clock)
    (hclock : clock < t0 + (resendInterval : Int))
    (hunder : ∀ x, ∀ f ∈ s.underWay x, f.datagram = challenge (s.ends x.other).nonce ∧
      clock ≤ f.due ∧ f.due < clock + (resendInterval : Int))
    (horder : s.InOrder)
    (hlost : (∀ x, s.underWay x ≠ []) ∨ s.mayLose = false ∧ ∃ x, s.underWay x ≠ []) :
    s.Timely t0 clock (fun _ => {}) := by
  have hintact (x : Side) (hne : s.underWay x.other ≠ []) : s.Intact t0 x {} := by
    obtain ⟨f, hf⟩ := List.exists_mem_of_ne_nil _ hne
    obtain ⟨hmeans, -, hlate⟩ := hunder x.other f hf
    rw [Side.other_other] at hmeans
    refine ⟨fun g hg _ => ?_, Or.inr (Or.inr ⟨f, hf, hmeans, by omega⟩)⟩
    have := (hunder x.other g hg).2.2
    omega
  have hmends (x : Side) : s.Mends t0 x {} := by
    have := (hnow x).2
    exact Or.inr (Or.inr (Or.inr (by omega)))
  constructor
  case alive => exact halive
  case keys => exact hkeys
  case past => exact fun x => (hnow x).2
  case first =>
    intro x
    have := (hnow x).1
    rw [(halive x).lapse_eq rfl]
    exact ⟨by omega, fun f hf => (hunder x f hf).2.1⟩
  case dues => exact fun x f hf => (hunder x f hf).2.2
  case inOrder => exact horder
  case means => exact fun x f hf => Or.inl (hunder x f hf).1
  case answered => exact fun x hverified => Bool.noConfusion hverified
  case survives =>
    rcases hlost with hboth | ⟨hmay, x, hne⟩
    · exact Or.inl fun x => hintact x (hboth x.other)
    · refine Or.inr ⟨hmay, x, hmends x, hintact x.other ?_⟩
      rwa [Side.other_other]

/-! ### What can happen -/

/-- What can come to an end of a pair that is on its way, and what the end does then. -/
inductive Happens (s : Transit) (p : Side → Progress) (x : Side) :
    Int → List Flight → Progress → List Bytes → Prop
  | lapse : Happens s p x (s.ends x).lapse (s.underWay x) (p x)
      (if (p x).verified then [] else [challenge (s.ends x).nonce])
  | asked {f : Flight} {rest : List Flight} (h : s.underWay x = f :: rest)
      (hmeans : f.datagram = challenge (s.ends x.other).nonce) :
      Happens s p x f.due rest { p x with answered := true }
        [proof (s.ends x.other).key (s.ends x.other).nonce]
  | proved {f : Flight} {rest : List Flight} (h : s.underWay x = f :: rest)
      (hmeans : f.datagram = proof (s.ends x).key (s.ends x).nonce)
      (hanswered : (p x.other).answered = true) :
      Happens s p x f.due rest { p x with verified := true } []

/-- **Whatever comes to an end is one of these, and the end does what is due then.** -/
theorem Timely.turn (h : s.Timely t0 clock p) (hcomes : s.Comes x event t rest)
    (hfirst : s.First t) (htime : t < t0 + 7 * (resendInterval : Int)) :
    ∃ q out, s.Happens p x t rest q out ∧ s.replies x event = out ∧
      ((s.ends x).hear event).Alive (t0 + 10 * (resendInterval : Int)) q ∧
      ((s.ends x).hear event).network.now = t := by
  cases hcomes with
  | lapse =>
    have hturn := (h.alive x).quiet (by omega)
    exact ⟨_, _, .lapse, hturn.sends.sent, hturn.alive, hturn.now⟩
  | @arrival f rest hqueue =>
    have hmem : f ∈ s.underWay x := by rw [hqueue]; exact List.mem_cons_self ..
    have hpast := h.past x
    have hclock := (h.first x).2 f hmem
    have hdelay : (s.ends x).network.now +
        ((f.due - (s.ends x).network.now).toNat : Int) = f.due := by omega
    rcases h.means x f hmem with hmeans | ⟨hmeans, hanswered⟩
    · have hturn := (h.alive x).challenge (h.alive x.other).length_nonce
        (s.ends x).connection.peer (f.due - (s.ends x).network.now).toNat (by omega)
      rw [← hmeans] at hturn
      refine ⟨_, _, .asked hqueue hmeans, ?_, hturn.alive, hturn.now.trans hdelay⟩
      rw [h.keys x]
      exact hturn.sends.sent
    · have hturn := (h.alive x).proof (s.ends x).connection.peer
        (f.due - (s.ends x).network.now).toNat (by omega)
      rw [← hmeans] at hturn
      exact ⟨_, _, .proved hqueue hmeans hanswered, hturn.sends.sent, hturn.alive,
        hturn.now.trans hdelay⟩

namespace Happens

theorem rest_sublist (h : s.Happens p x t rest q out) : rest.Sublist (s.underWay x) := by
  cases h with
  | lapse => exact List.Sublist.refl _
  | asked hqueue | proved hqueue => rw [hqueue]; exact List.sublist_cons_self ..

/-- An end goes back on nothing. -/
theorem mono (h : s.Happens p x t rest q out) :
    ((p x).answered = true → q.answered = true) ∧ ((p x).verified = true → q.verified = true) := by
  cases h with
  | lapse => exact ⟨id, id⟩
  | asked => exact ⟨fun _ => rfl, id⟩
  | proved => exact ⟨id, fun _ => rfl⟩

/-- What an end sends means something to the other end. -/
theorem means (h : s.Happens p x t rest q out) {d : Bytes} (hd : d ∈ out) :
    d = challenge (s.ends x).nonce ∨
      d = proof (s.ends x.other).key (s.ends x.other).nonce ∧ q.answered = true := by
  cases h with
  | lapse =>
    cases hverified : (p x).verified with
    | true =>
      rw [hverified] at hd
      cases hd
    | false =>
      rw [hverified] at hd
      exact Or.inl (List.mem_singleton.mp hd)
  | asked => exact Or.inr ⟨List.mem_singleton.mp hd, rfl⟩
  | proved => cases hd

theorem answered (h : s.Happens p x t rest q out)
    (hbefore : (p x).verified = true → (p x.other).answered = true) (hq : q.verified = true) :
    (p x.other).answered = true := by
  cases h with
  | lapse | asked => exact hbefore hq
  | proved _ _ hanswered => exact hanswered

end Happens

/-! ### What is left to hope for -/

section After

variable {due : Int} {r : Progress}

theorem key_after (s : Transit) (x : Side) (event : Event) (rest queue : List Flight)
    (still : Bool) (y : Side) :
    ((s.after x event rest queue still).ends y).key = (s.ends y).key := by
  have hboth : ∀ y, ((s.after x event rest queue still).ends y).key = (s.ends y).key :=
    Side.both x (by rw [after_ends_self]; exact ((s.ends x).hear_same event).1)
      (by rw [after_ends_other])
  exact hboth y

theorem nonce_after (s : Transit) (x : Side) (event : Event) (rest queue : List Flight)
    (still : Bool) (y : Side) :
    ((s.after x event rest queue still).ends y).nonce = (s.ends y).nonce := by
  have hboth : ∀ y, ((s.after x event rest queue still).ends y).nonce = (s.ends y).nonce :=
    Side.both x (by rw [after_ends_self]; exact ((s.ends x).hear_same event).2.1)
      (by rw [after_ends_other])
  exact hboth y

theorem Asks.after_self (h : s.Asks x due) (hqueue : s.underWay x.other ⊆ queue) :
    (s.after x event rest queue still).Asks x due := by
  obtain ⟨f, hf, hmeans, hdue⟩ := h
  refine ⟨f, ?_, ?_, hdue⟩
  · rw [after_underWay_other]
    exact hqueue hf
  · rw [nonce_after, hmeans]

theorem Asks.after_other (h : s.Asks x.other due)
    (hrest : ∀ f ∈ s.underWay x, f.datagram = challenge (s.ends x.other).nonce → f ∈ rest) :
    (s.after x event rest queue still).Asks x.other due := by
  obtain ⟨f, hf, hmeans, hdue⟩ := h
  rw [Side.other_other] at hf
  refine ⟨f, ?_, ?_, hdue⟩
  · rw [Side.other_other, after_underWay_self]
    exact hrest f hf hmeans
  · rw [nonce_after, hmeans]

theorem Owed.after_self (h : s.Owed x due)
    (hrest : ∀ f ∈ s.underWay x,
      f.datagram = proof (s.ends x).key (s.ends x).nonce → f ∈ rest) :
    (s.after x event rest queue still).Owed x due := by
  obtain ⟨f, hf, hmeans, hdue⟩ := h
  refine ⟨f, ?_, ?_, hdue⟩
  · rw [after_underWay_self]
    exact hrest f hf hmeans
  · rw [key_after, nonce_after, hmeans]

theorem Owed.after_other (h : s.Owed x.other due) (hqueue : s.underWay x.other ⊆ queue) :
    (s.after x event rest queue still).Owed x.other due := by
  obtain ⟨f, hf, hmeans, hdue⟩ := h
  refine ⟨f, ?_, ?_, hdue⟩
  · rw [after_underWay_other]
    exact hqueue hf
  · rw [key_after, nonce_after, hmeans]

/-- An end that has heard something is intact if its proof was not what it heard, or it is
verified by it, and if no challenge of it is late. -/
theorem Intact.after_self (h : s.Intact t0 x q) (hverified : q.verified = true → r.verified = true)
    (hrest : r.verified = true ∨ ∀ f ∈ s.underWay x,
      f.datagram = proof (s.ends x).key (s.ends x).nonce → f ∈ rest)
    (hqueue : s.underWay x.other ⊆ queue)
    (hmore : ∀ f ∈ queue, f.datagram = challenge (s.ends x).nonce →
      f ∈ s.underWay x.other ∨ f.due < t0 + 4 * (resendInterval : Int)) :
    (s.after x event rest queue still).Intact t0 x r where
  asked := by
    intro f hf hmeans
    rw [after_underWay_other] at hf
    rw [nonce_after] at hmeans
    rcases hmore f hf hmeans with hold | hdue
    · exact h.asked f hold hmeans
    · exact hdue
  hope := by
    rcases h.hope with hdone | howed | hasks
    · exact Or.inl (hverified hdone)
    · rcases hrest with hdone | hrest
      · exact Or.inl hdone
      · exact Or.inr (Or.inl (howed.after_self hrest))
    · exact Or.inr (Or.inr (hasks.after_self hqueue))

theorem Mends.after_self (h : s.Mends t0 x q) (hverified : q.verified = true → r.verified = true)
    (hrest : ∀ f ∈ s.underWay x,
      f.datagram = proof (s.ends x).key (s.ends x).nonce → f ∈ rest)
    (hqueue : s.underWay x.other ⊆ queue)
    (hnow : (s.ends x).network.now < t0 + 4 * (resendInterval : Int) →
      (s.after x event rest queue still).Mends t0 x r) :
    (s.after x event rest queue still).Mends t0 x r := by
  rcases h with hdone | howed | hasks | hearly
  · exact Or.inl (hverified hdone)
  · exact Or.inr (Or.inl (howed.after_self hrest))
  · exact Or.inr (Or.inr (Or.inl (hasks.after_self hqueue)))
  · exact hnow hearly

/-- The other end stays intact if the challenge of it that was heard is answered. -/
theorem Intact.after_other (h : s.Intact t0 x.other q) (hrest : rest ⊆ s.underWay x)
    (hqueue : s.underWay x.other ⊆ queue)
    (hasks : s.Asks x.other (t0 + 2 * (resendInterval : Int)) →
      (s.after x event rest queue still).Asks x.other (t0 + 2 * (resendInterval : Int)) ∨
        (s.after x event rest queue still).Owed x.other (t0 + 3 * (resendInterval : Int))) :
    (s.after x event rest queue still).Intact t0 x.other q where
  asked := by
    intro f hf hmeans
    rw [Side.other_other, after_underWay_self] at hf
    rw [nonce_after] at hmeans
    refine h.asked f ?_ hmeans
    rw [Side.other_other]
    exact hrest hf
  hope := by
    rcases h.hope with hdone | howed | hbefore
    · exact Or.inl hdone
    · exact Or.inr (Or.inl (howed.after_other hqueue))
    · rcases hasks hbefore with hstill | howed
      · exact Or.inr (Or.inr hstill)
      · exact Or.inr (Or.inl howed)

theorem Mends.after_other (h : s.Mends t0 x.other q) (hqueue : s.underWay x.other ⊆ queue)
    (hasks : s.Asks x.other (t0 + 6 * (resendInterval : Int)) →
      (s.after x event rest queue still).Asks x.other (t0 + 6 * (resendInterval : Int)) ∨
        (s.after x event rest queue still).Owed x.other (t0 + 7 * (resendInterval : Int))) :
    (s.after x event rest queue still).Mends t0 x.other q := by
  rcases h with hdone | howed | hbefore | hearly
  · exact Or.inl hdone
  · exact Or.inr (Or.inl (howed.after_other hqueue))
  · rcases hasks hbefore with hstill | howed
    · exact Or.inr (Or.inr (Or.inl hstill))
    · exact Or.inr (Or.inl howed)
  · refine Or.inr (Or.inr (Or.inr ?_))
    rwa [after_ends_other]

end After

/-- What survives, seen from one end. -/
theorem survives_iff (x : Side) : s.Survives t0 p ↔
    (s.Intact t0 x (p x) ∧ s.Intact t0 x.other (p x.other)) ∨
      s.mayLose = false ∧ (s.Mends t0 x (p x) ∧ s.Intact t0 x.other (p x.other) ∨
        s.Mends t0 x.other (p x.other) ∧ s.Intact t0 x (p x)) := by
  constructor
  · rintro (hall | ⟨hlost, y, hmends, hintact⟩)
    · exact Or.inl ⟨hall x, hall x.other⟩
    · refine Or.inr ⟨hlost, ?_⟩
      by_cases hy : y = x
      · rw [hy] at hmends hintact
        exact Or.inl ⟨hmends, hintact⟩
      · rw [Side.eq_other_of_ne hy, Side.other_other] at hintact
        rw [Side.eq_other_of_ne hy] at hmends
        exact Or.inr ⟨hmends, hintact⟩
  · rintro (⟨hown, hother⟩ | ⟨hlost, ⟨hmends, hintact⟩ | ⟨hmends, hintact⟩⟩)
    · exact Or.inl (Side.both (P := fun x => s.Intact t0 x (p x)) x hown hother)
    · exact Or.inr ⟨hlost, x, hmends, hintact⟩
    · refine Or.inr ⟨hlost, x.other, hmends, ?_⟩
      rwa [Side.other_other]

/-! ### Each thing that can happen keeps the hope -/

/-- A read times out.  An end that waits for its proof sends its challenge again, which makes up
for what was lost. -/
theorem survives_lapse (h : s.Timely t0 clock p) (hfirst : s.First (s.ends x).lapse)
    (hcarried : Carried (s.ends x).lapse
      (if (p x).verified then [] else [challenge (s.ends x).nonce]) (s.underWay x.other)
      s.mayLose queue still) :
    (s.after x event (s.underWay x) queue still).Survives t0 (x.pick (p x) (p x.other)) := by
  obtain ⟨⟨more, rfl, hmore⟩, -⟩ := carried_append hcarried
  have hqueue : s.underWay x.other ⊆ s.underWay x.other ++ more := List.subset_append_left ..
  have hintact (hi : s.Intact t0 x (p x)) :
      (s.after x event (s.underWay x) (s.underWay x.other ++ more) still).Intact t0 x (p x) := by
    refine hi.after_self id (Or.inr fun _ hf _ => hf) hqueue fun f hf hmeans => ?_
    rcases List.mem_append.mp hf with hold | hnew
    · exact Or.inl hold
    · -- The challenge is sent again before what the end hopes for has come.
      obtain ⟨hmem, -, hlate⟩ := hmore f hnew
      have hbefore : (s.ends x).lapse < t0 + 3 * (resendInterval : Int) := by
        rcases hi.hope with hdone | ⟨g, hg, -, hdue⟩ | ⟨g, hg, -, hdue⟩
        · rw [hdone] at hmem
          cases hmem
        · have := (hfirst x).2 g hg
          omega
        · have := (hfirst x.other).2 g hg
          omega
      exact Or.inr (by omega)
  have hother (hi : s.Intact t0 x.other (p x.other)) :
      (s.after x event (s.underWay x) (s.underWay x.other ++ more) still).Intact t0 x.other
        (p x.other) :=
    hi.after_other (List.Subset.refl _) hqueue fun hasks =>
      Or.inl (hasks.after_other fun _ hf _ => hf)
  rw [survives_iff x, Side.pick_self, Side.pick_other]
  rcases (survives_iff x).mp h.survives with ⟨hi, hi'⟩ | ⟨hlost, ⟨hm, hi'⟩ | ⟨hm, hi⟩⟩
  · exact Or.inl ⟨hintact hi, hother hi'⟩
  · refine Or.inr ⟨eq_false_of_carried hcarried hlost, Or.inl ⟨?_, hother hi'⟩⟩
    refine hm.after_self id (fun _ hf _ => hf) hqueue fun hearly => ?_
    cases hverified : (p x).verified with
    | true => exact Or.inl hverified
    | false =>
      rw [hverified] at hcarried
      rcases carried_one hcarried with ⟨due, -, hlate, -, hafter, -⟩ | ⟨hmay, -⟩
      · refine Or.inr (Or.inr (Or.inl ⟨⟨challenge (s.ends x).nonce, due⟩, ?_, ?_, ?_⟩))
        · rw [after_underWay_other, hafter]
          exact List.mem_append_right _ (List.mem_singleton_self _)
        · rw [nonce_after]
        · rw [(h.alive x).lapse_eq hverified] at hlate
          dsimp only
          omega
      · rw [hlost] at hmay
        cases hmay
  · exact Or.inr ⟨eq_false_of_carried hcarried hlost, Or.inr ⟨hm.after_other hqueue
      fun hasks => Or.inl (hasks.after_other fun _ hf _ => hf), hintact hi⟩⟩

/-- A challenge is answered.  The answer comes in time, or it is lost, and then the other end
makes up for it. -/
theorem survives_asked (h : s.Timely t0 clock p) {f : Flight} (hunder : s.underWay x = f :: rest)
    (hmeans : f.datagram = challenge (s.ends x.other).nonce) (hfirst : s.First f.due)
    (hnow : ((s.ends x).hear event).network.now = f.due)
    (hcarried : Carried f.due [proof (s.ends x.other).key (s.ends x.other).nonce]
      (s.underWay x.other) s.mayLose queue still) :
    (s.after x event rest queue still).Survives t0
      (x.pick { p x with answered := true } (p x.other)) := by
  obtain ⟨⟨more, hafter, hmore⟩, -⟩ := carried_append hcarried
  have hqueue : s.underWay x.other ⊆ queue := by
    rw [hafter]
    exact List.subset_append_left ..
  have hrest : rest ⊆ s.underWay x := by
    rw [hunder]
    exact List.subset_cons_self ..
  have hkeep : ∀ g ∈ s.underWay x,
      g.datagram = proof (s.ends x).key (s.ends x).nonce → g ∈ rest := by
    intro g hg hproof
    rw [hunder] at hg
    rcases List.mem_cons.mp hg with rfl | hrest
    · exact absurd (hmeans.symm.trans hproof) (challenge_ne_proof _ _ _)
    · exact hrest
  have hintact (hi : s.Intact t0 x (p x)) :
      (s.after x event rest queue still).Intact t0 x { p x with answered := true } := by
    refine hi.after_self id (Or.inr hkeep) hqueue fun g hg hchallenge => ?_
    rw [hafter] at hg
    rcases List.mem_append.mp hg with hold | hnew
    · exact Or.inl hold
    · have hproof := List.mem_singleton.mp (hmore g hnew).1
      exact absurd (hchallenge.symm.trans hproof) (challenge_ne_proof _ _ _)
  -- The challenge comes before the other end is through with challenges.
  have hearly (hi : s.Intact t0 x.other (p x.other)) : f.due < t0 + 4 * (resendInterval : Int) := by
    refine hi.asked f ?_ hmeans
    rw [Side.other_other, hunder]
    exact List.mem_cons_self ..
  rw [survives_iff x, Side.pick_self, Side.pick_other]
  rcases carried_one hcarried with ⟨due, -, hlate, -, hsent, -⟩ | ⟨hmay, -, hlost⟩
  · have hbefore {first last : Int} (hasks : s.Asks x.other first)
        (hlast : first + (resendInterval : Int) ≤ last) :
        (s.after x event rest queue still).Asks x.other first ∨
          (s.after x event rest queue still).Owed x.other last := by
      obtain ⟨g, hg, hchallenge, hdue⟩ := hasks
      rw [Side.other_other, hunder] at hg
      rcases List.mem_cons.mp hg with rfl | hg
      · refine Or.inr ⟨⟨proof (s.ends x.other).key (s.ends x.other).nonce, due⟩, ?_, ?_, ?_⟩
        · rw [after_underWay_other, hsent]
          exact List.mem_append_right _ (List.mem_singleton_self _)
        · rw [key_after, nonce_after]
        · dsimp only
          omega
      · refine Or.inl ⟨g, ?_, ?_, hdue⟩
        · rwa [Side.other_other, after_underWay_self]
        · rw [nonce_after, hchallenge]
    rcases (survives_iff x).mp h.survives with ⟨hi, hi'⟩ | ⟨hlost, ⟨hm, hi'⟩ | ⟨hm, hi⟩⟩
    · exact Or.inl ⟨hintact hi,
        hi'.after_other hrest hqueue fun hasks => hbefore hasks (by omega)⟩
    · refine Or.inr ⟨eq_false_of_carried hcarried hlost, Or.inl ⟨?_,
        hi'.after_other hrest hqueue fun hasks => hbefore hasks (by omega)⟩⟩
      refine hm.after_self id hkeep hqueue fun _ => Or.inr (Or.inr (Or.inr ?_))
      rw [after_ends_self, hnow]
      exact hearly hi'
    · exact Or.inr ⟨eq_false_of_carried hcarried hlost,
        Or.inr ⟨hm.after_other hqueue fun hasks => hbefore hasks (by omega), hintact hi⟩⟩
  · rcases (survives_iff x).mp h.survives with ⟨hi, hi'⟩ | ⟨hnone, -⟩
    · refine Or.inr ⟨hlost, Or.inr ⟨Or.inr (Or.inr (Or.inr ?_)), hintact hi⟩⟩
      have hpast := h.past x.other
      have hclock := (h.first x).2 f (by rw [hunder]; exact List.mem_cons_self ..)
      have hdue := hearly hi'
      rw [after_ends_other]
      omega
    · rw [hmay] at hnone
      cases hnone

/-- The proof is taken. -/
theorem survives_proved (h : s.Timely t0 clock p) {f : Flight} (hunder : s.underWay x = f :: rest)
    (hmeans : f.datagram = proof (s.ends x).key (s.ends x).nonce)
    (hcarried : Carried f.due [] (s.underWay x.other) s.mayLose queue still) :
    (s.after x event rest queue still).Survives t0
      (x.pick { p x with verified := true } (p x.other)) := by
  obtain ⟨rfl, rfl⟩ := carried_nil hcarried
  have hqueue := List.Subset.refl (s.underWay x.other)
  have hrest : rest ⊆ s.underWay x := by
    rw [hunder]
    exact List.subset_cons_self ..
  have hkeep : ∀ g ∈ s.underWay x, g.datagram = challenge (s.ends x.other).nonce → g ∈ rest := by
    intro g hg hchallenge
    rw [hunder] at hg
    rcases List.mem_cons.mp hg with rfl | hrest
    · exact absurd (hchallenge.symm.trans hmeans) (challenge_ne_proof _ _ _)
    · exact hrest
  rw [survives_iff x, Side.pick_self, Side.pick_other]
  rcases (survives_iff x).mp h.survives with ⟨hi, hi'⟩ | ⟨hlost, ⟨-, hi'⟩ | ⟨hm, hi⟩⟩
  · exact Or.inl ⟨hi.after_self (fun _ => rfl) (Or.inl rfl) hqueue fun _ hg _ => Or.inl hg,
      hi'.after_other hrest hqueue fun hasks => Or.inl (hasks.after_other hkeep)⟩
  · exact Or.inr ⟨hlost, Or.inl ⟨Or.inl rfl,
      hi'.after_other hrest hqueue fun hasks => Or.inl (hasks.after_other hkeep)⟩⟩
  · exact Or.inr ⟨hlost, Or.inr ⟨hm.after_other hqueue
      fun hasks => Or.inl (hasks.after_other hkeep),
        hi.after_self (fun _ => rfl) (Or.inl rfl) hqueue fun _ hg _ => Or.inl hg⟩⟩

/-! ### A step -/

/-- **A step keeps both ends on their way.** -/
theorem Timely.after (h : s.Timely t0 clock p) (hcomes : s.Comes x event t rest)
    (hfirst : s.First t) (htime : t < t0 + 7 * (resendInterval : Int))
    (hcarried : Carried t (s.replies x event) (s.underWay x.other) s.mayLose queue still) :
    ∃ q out, s.Happens p x t rest q out ∧ s.replies x event = out ∧
      ((s.ends x).hear event).network.now = t ∧
      (s.after x event rest queue still).Timely t0 t (x.pick q (p x.other)) := by
  obtain ⟨q, out, hhappens, hreplies, halive, hnow⟩ := h.turn hcomes hfirst htime
  rw [hreplies] at hcarried
  obtain ⟨⟨more, hafter, hmore⟩, hpairwise⟩ := carried_append hcarried
  have hclock : clock ≤ t := h.first.le_of_comes hcomes
  have hsublist := hhappens.rest_sublist
  refine ⟨q, out, hhappens, hreplies, hnow, ?_⟩
  constructor
  case alive =>
    refine Side.both x ?_ ?_
    · rw [after_ends_self, Side.pick_self]
      exact halive
    · rw [after_ends_other, Side.pick_other]
      exact h.alive x.other
  case keys =>
    intro y
    rw [key_after, key_after]
    exact h.keys y
  case past =>
    refine Side.both x ?_ ?_
    · rw [after_ends_self]
      exact Int.le_of_eq hnow
    · rw [after_ends_other]
      exact Int.le_trans (h.past x.other) hclock
  case first =>
    refine Side.both x ⟨?_, fun f hf => ?_⟩ ⟨?_, fun f hf => ?_⟩
    · rw [after_ends_self, End.lapse, hnow]
      omega
    · rw [after_underWay_self] at hf
      exact (hfirst x).2 f (hsublist.subset hf)
    · rw [after_ends_other]
      exact (hfirst x.other).1
    · rw [after_underWay_other, hafter] at hf
      rcases List.mem_append.mp hf with hold | hnew
      · exact (hfirst x.other).2 f hold
      · exact (hmore f hnew).2.1
  case dues =>
    refine Side.both x (fun f hf => ?_) (fun f hf => ?_)
    · rw [after_underWay_self] at hf
      have := h.dues x f (hsublist.subset hf)
      omega
    · rw [after_underWay_other, hafter] at hf
      rcases List.mem_append.mp hf with hold | hnew
      · have := h.dues x.other f hold
        omega
      · exact (hmore f hnew).2.2
  case inOrder =>
    refine Side.both x ?_ ?_
    · rw [after_underWay_self]
      exact (h.inOrder x).sublist hsublist
    · rw [after_underWay_other]
      exact hpairwise (h.inOrder x.other)
  case means =>
    refine Side.both x (fun f hf => ?_) (fun f hf => ?_)
    · rw [after_underWay_self] at hf
      rw [key_after, nonce_after, nonce_after, Side.pick_other]
      exact h.means x f (hsublist.subset hf)
    · rw [after_underWay_other, hafter] at hf
      rw [key_after, nonce_after, nonce_after, Side.other_other, Side.pick_self]
      rcases List.mem_append.mp hf with hold | hnew
      · rcases h.means x.other f hold with hmeans | ⟨hmeans, hanswered⟩
        · rw [Side.other_other] at hmeans
          exact Or.inl hmeans
        · rw [Side.other_other] at hanswered
          exact Or.inr ⟨hmeans, hhappens.mono.1 hanswered⟩
      · exact hhappens.means (hmore f hnew).1
  case answered =>
    refine Side.both x ?_ ?_
    · rw [Side.pick_self, Side.pick_other]
      exact hhappens.answered (h.answered x)
    · rw [Side.other_other, Side.pick_self, Side.pick_other]
      intro hverified
      have hanswered := h.answered x.other hverified
      rw [Side.other_other] at hanswered
      exact hhappens.mono.1 hanswered
  case survives =>
    cases hhappens with
    | lapse => exact survives_lapse h hfirst hcarried
    | asked hunder hmeans => exact survives_asked h hunder hmeans hfirst hnow hcarried
    | proved hunder hmeans => exact survives_proved h hunder hmeans hcarried

/-! ### What a step uses up -/

/-- What a datagram under way counts for: a challenge calls for a proof, and a proof for
nothing. -/
def toll (d : Bytes) : Nat :=
  if sendsChallenge (.sent d) then 2 else 1

/-- What is under way counts for so much. -/
def load (queue : List Flight) : Nat :=
  (queue.map fun f => toll f.datagram).sum

/-- The time that is left to an end, in which it may send a challenge at every moment, and what
is under way to it. -/
def share (s : Transit) (t0 : Int) (x : Side) : Nat :=
  3 * (t0 + 7 * (resendInterval : Int) - (s.ends x).network.now).toNat + load (s.underWay x)

def remaining (t0 : Int) (s : Transit) : Nat :=
  s.share t0 .left + s.share t0 .right

theorem remaining_eq (t0 : Int) (s : Transit) (x : Side) :
    s.remaining t0 = s.share t0 x + s.share t0 x.other := by
  cases x with
  | left => rfl
  | right => exact Nat.add_comm ..

theorem toll_challenge (nonce : Bytes) : toll (challenge nonce) = 2 := by
  rw [toll, sendsChallenge_challenge, if_pos rfl]

theorem toll_proof (key : Key) (nonce : Bytes) : toll (proof key nonce) = 1 := by
  rw [toll, sendsChallenge_proof, if_neg Bool.false_ne_true]

theorem load_cons (f : Flight) (rest : List Flight) :
    load (f :: rest) = toll f.datagram + load rest :=
  List.sum_cons

theorem load_carried {now : Int} {mayLose : Bool} {after : List Flight}
    (h : Carried now out queue mayLose after still) :
    load after ≤ load queue + (out.map toll).sum := by
  induction h with
  | nil => exact Nat.le_add_right ..
  | send _ _ _ _ ih =>
    simp only [load, List.map_append, List.sum_append, List.map_cons, List.map_nil,
      List.sum_cons, List.sum_nil] at ih ⊢
    omega
  | lose _ ih =>
    rw [List.map_cons, List.sum_cons]
    omega

theorem remaining_lt (h : s.Timely t0 clock p) (hcomes : s.Comes x event t rest)
    (htime : t < t0 + 7 * (resendInterval : Int)) (hhappens : s.Happens p x t rest q out)
    (hnow : ((s.ends x).hear event).network.now = t)
    (hcarried : Carried t out (s.underWay x.other) s.mayLose queue still) :
    (s.after x event rest queue still).remaining t0 < s.remaining t0 := by
  have hload := load_carried hcarried
  have hclock : clock ≤ t := h.first.le_of_comes hcomes
  have hpast := h.past x
  rw [remaining_eq t0 _ x, remaining_eq t0 s x]
  unfold share
  rw [after_ends_self, after_ends_other, after_underWay_self, after_underWay_other, hnow]
  cases hhappens with
  | lapse =>
    have hout :
        ((if (p x).verified then [] else [challenge (s.ends x).nonce]).map toll).sum ≤ 2 := by
      cases (p x).verified with
      | true => exact Nat.zero_le _
      | false => exact Nat.le_of_eq (toll_challenge (s.ends x).nonce)
    have hpatience := (h.alive x).patience_pos
    rw [End.lapse] at htime ⊢
    omega
  | asked hunder hmeans =>
    rw [List.map_singleton, List.sum_singleton, toll_proof] at hload
    rw [hunder, load_cons, hmeans, toll_challenge]
    omega
  | proved hunder hmeans =>
    rw [List.map_nil, List.sum_nil] at hload
    rw [hunder, load_cons, hmeans, toll_proof]
    omega

/-! ### Both ends finish -/

/-- An end that has gone on from another one is where its program is. -/
structure GoneOn (e e' : End) : Prop where
  key : e'.key = e.key
  origin : e'.origin = e.origin
  timeout : e'.timeout = e.timeout
  follows : Authentication.Follows e'

/-- Both ends have finished within seven intervals. -/
def Done (s : Transit) (t0 : Int) : Prop :=
  ∀ x, (s.ends x).stage = .finished ∧
    (s.ends x).network.now < t0 + 7 * (resendInterval : Int)

theorem GoneOn.after {start : Side → End} (h : ∀ y, GoneOn (start y) (s.ends y)) (y : Side) :
    GoneOn (start y) ((s.after x event rest queue still).ends y) := by
  have hboth : ∀ y, GoneOn (start y) ((s.after x event rest queue still).ends y) := by
    refine Side.both x ?_ ?_
    · obtain ⟨hkey, -, horigin, htimeout⟩ := (s.ends x).hear_same event
      rw [after_ends_self]
      exact ⟨hkey.trans (h x).key, horigin.trans (h x).origin, htimeout.trans (h x).timeout,
        (h x).follows.hear event⟩
    · rw [after_ends_other]
      exact h x.other
  exact hboth y

/-- **Both ends finish, whatever the network does.** -/
theorem inevitable_done {start : Side → End} (h : s.Timely t0 clock p)
    (htime : clock < t0 + 7 * (resendInterval : Int))
    (hgone : ∀ y, GoneOn (start y) (s.ends y)) :
    Inevitable (fun s => s.Done t0 ∧ ∀ y, GoneOn (start y) (s.ends y)) s := by
  refine inevitable_of_measure (remaining t0)
    (fun s => (∃ clock p, s.Timely t0 clock p ∧ clock < t0 + 7 * (resendInterval : Int)) ∧
      ∀ y, GoneOn (start y) (s.ends y)) ?_ ⟨⟨clock, p, h, htime⟩, hgone⟩
  rintro s ⟨⟨clock, p, h, htime⟩, hgone⟩
  by_cases hdone : ∀ x, (p x).isDone = true
  · refine Or.inl ⟨fun x => ⟨?_, Int.lt_of_le_of_lt (h.past x) htime⟩, hgone⟩
    rcases (h.alive x).stage with ⟨-, hstage⟩ | ⟨hopen, -⟩
    · exact hstage
    · rw [hdone x] at hopen
      cases hopen
  · rw [not_forall] at hdone
    obtain ⟨x, hx⟩ := hdone
    rw [Bool.not_eq_true] at hx
    refine Or.inr ⟨exists_step h.inOrder h.first h.dues, ?_⟩
    rintro _ ⟨y, hcomes, hfirst, hcarried⟩
    have hsoon := h.before hx hfirst
    obtain ⟨q, out, hhappens, hreplies, hnow, hafter⟩ := h.after hcomes hfirst hsoon hcarried
    rw [hreplies] at hcarried
    exact ⟨⟨⟨_, _, hafter, hsoon⟩, GoneOn.after hgone⟩,
      remaining_lt h hcomes hsoon hhappens hnow hcarried⟩

end Framecast.Transit
