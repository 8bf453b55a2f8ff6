/-
What an end does while its time is not up.

An end is alive as long as it exchanges with time left, and once it has finished.  Three things
can come to it from a peer with the same key: the peer's challenge, the proof of its own nonce,
or nothing until its read times out.  Each has one outcome, whether the end exchanges or has
finished: it answers the challenge, takes the proof, and sends its challenge again if it waits
for the proof.  `Turn` is what all three have in common.
-/
import Framecast.Proofs.Authentication.Ends
import Framecast.Proofs.Authentication.Resending

namespace Framecast.Authentication

theorem Progress.eq_of_done {p : Progress} (h : p.isDone = true) :
    p.answered = true ∧ p.verified = true := by
  rwa [Progress.isDone, Bool.and_eq_true] at h

/-! ### Steps -/

section Step

variable {n : Network}

/-- What a step makes of a datagram. -/
theorem step_datagram (key : Key) (nonce : Bytes) (p : Progress) (n : Network) (d : Bytes)
    (sender : Endpoint) (delay : Nat) :
    step key nonce p (n.hearing [⟨.datagram d sender, delay⟩]) =
      afterDatagram key nonce p (d.take capacity)
        ((n.hearing [⟨.datagram d sender, delay⟩]).returned [] delay) := rfl

theorem step_hears_challenge (key : Key) (nonce : Bytes) (p : Progress) (ha : n.Accepts)
    {theirs : Bytes} (hlength : theirs.length = nonceSize) (sender : Endpoint) (delay : Nat) :
    ∃ m, step key nonce p (n.hearing [⟨.datagram (challenge theirs) sender, delay⟩]) =
        (.ok { p with answered := true }, m) ∧ m.Accepts ∧ n.Sends [proof key theirs] m := by
  have hread : ((n.hearing [⟨.datagram (challenge theirs) sender, delay⟩]).returned []
    delay).Accepts := ha
  obtain ⟨m, hsend, hm, hsends⟩ := hread.send (proof key theirs)
  rw [step_datagram, afterDatagram, meaning_take, meaning_eq_challenge.mpr ⟨rfl, hlength⟩]
  exact ⟨m, Action.bind_of_ok hsend, hm, hsends.after rfl⟩

theorem step_hears_proof (key : Key) (nonce : Bytes) (p : Progress) (ha : n.Accepts)
    (sender : Endpoint) (delay : Nat) :
    ∃ m, step key nonce p (n.hearing [⟨.datagram (proof key nonce) sender, delay⟩]) =
        (.ok { p with verified := true }, m) ∧ m.Accepts ∧ n.Sends [] m := by
  have hmeans : meaning (proof key nonce) = .proof (code key nonce) :=
    meaning_eq_proof.mpr ⟨rfl, length_code key nonce⟩
  rw [step_datagram, afterDatagram, meaning_take, hmeans]
  dsimp only
  rw [if_pos rfl]
  exact ⟨_, rfl, ha, .of_trace_eq rfl⟩

/-- An answer takes no time. -/
theorem leaves_now_answerLate (key : Key) (d : Bytes) : (answerLate key d).Leaves (·.now) := by
  unfold answerLate
  split
  · exact (Action.leaves_ofCall fun n => n.now_attempt _).bind fun _ _ => rfl
  · exact fun _ => rfl

end Step

namespace End

variable {e : End} {p q : Progress} {due : Int} {event : Event} {out : List Bytes}

/-- How long one read of the end takes if nothing comes. -/
def patience (e : End) : Nat :=
  match e.stage with
  | .finished => e.connection.readTimeout
  | _ => resendInterval

/-- When the read of the end times out. -/
def lapse (e : End) : Int :=
  e.network.now + (e.patience : Int)

/-- The end has come to `p`, and its time is not up before `due`. -/
structure Alive (e : End) (due : Int) (p : Progress) : Prop where
  accepts : e.network.Accepts
  length_nonce : e.nonce.length = nonceSize
  reads : 0 < e.connection.readTimeout
  stage : p.isDone = true ∧ e.stage = .finished ∨
    p.isDone = false ∧ ∃ deadline, due ≤ deadline ∧ e.stage = .exchanging deadline p

/-- An end comes from `e` to the end after the event, and to `q`, and sends `out`. -/
structure Turn (e : End) (due : Int) (event : Event) (q : Progress) (out : List Bytes) :
    Prop where
  alive : (e.hear event).Alive due q
  sends : e.network.Sends out (e.hear event).network
  now : (e.hear event).network.now = e.network.now + (event.span e.patience : Int)

theorem stage_of_settle {deadline now : Int} (hdeadline : due ≤ deadline) (hnow : now < due) :
    p.isDone = true ∧ settle deadline p now = .finished ∨
      p.isDone = false ∧ ∃ d, due ≤ d ∧ settle deadline p now = .exchanging d p := by
  cases hdone : p.isDone with
  | true => exact Or.inl ⟨rfl, settle_of_done hdone⟩
  | false => exact Or.inr ⟨rfl, deadline, hdeadline, settle_of_open hdone (by omega)⟩

/-- A turn of an end that exchanges is a step of its program. -/
theorem turn_of_step {deadline : Int} {m : Network} (h : e.Alive due p)
    (hstage : e.stage = .exchanging deadline p) (hdeadline : due ≤ deadline)
    (hstep : step e.key e.nonce p (e.network.hearing [event]) = (.ok q, m)) (ha : m.Accepts)
    (hsends : e.network.Sends out m)
    (htime : e.network.now + (event.span e.patience : Int) < due) : e.Turn due event q out := by
  have hpatience : e.patience = resendInterval := by rw [patience, hstage]
  have hnow : m.now = e.network.now + (event.span e.patience : Int) := by
    have hafter := (after_step e.key e.nonce p (e.network.hearing [event])).now
    rw [hstep] at hafter
    rw [hpatience]
    exact hafter
  have hhear := hear_of_exchanging hstage hstep
  refine ⟨?_, ?_, ?_⟩
  · rw [hhear]
    exact ⟨ha, h.length_nonce, h.reads, stage_of_settle hdeadline (hnow ▸ htime)⟩
  · rw [hhear]
    exact hsends
  · rw [hhear]
    exact hnow

/-- A turn of a finished end is a read of its connection. -/
theorem turn_of_finished (h : e.Alive due p) (hdone : p.isDone = true)
    (hstage : e.stage = .finished) (hsends : e.network.Sends out (e.hear event).network) :
    e.Turn due event p out := by
  have hpatience : e.patience = e.connection.readTimeout := by rw [patience, hstage]
  have hhear : e.hear event = _ := hear_of_finished hstage
  obtain ⟨-, hnonce, -, -⟩ := e.hear_same event
  have hreads : (e.hear event).connection.readTimeout = e.connection.readTimeout := by
    rw [hhear]
    have hleaves : Link.receiveOne.Leaves fun l => l.connection.readTimeout :=
      Link.leaves_receiveOne_of (fun _ _ => rfl) fun _ _ => rfl
    exact hleaves ⟨e.connection, e.network.hearing [event]⟩
  have haccepts : (e.hear event).network.Accepts := by
    rw [hhear]
    exact (sends_receiveOne (l := ⟨e.connection, e.network.hearing [event]⟩) h.accepts rfl).1
  have hfinished : (e.hear event).stage = .finished := by
    rw [hhear]
    exact hstage
  refine ⟨⟨haccepts, ?_, ?_, Or.inl ⟨hdone, hfinished⟩⟩, hsends, ?_⟩
  · rw [hnonce]
    exact h.length_nonce
  · rw [hreads]
    exact h.reads
  · rw [hhear, hpatience]
    show (Link.receiveOne ⟨e.connection, e.network.hearing [event]⟩).2.network.now = _
    rw [Link.network_receiveOne, Network.receive_eq]
    cases hout : (e.network.hearing [event]).next.outcome Sealed.maxSize with
    | error errno => rfl
    | ok arrival => exact leaves_now_answerLate _ _ _

/-- An event that brings no challenge makes a finished end send nothing. -/
theorem sends_of_finished (ha : e.network.Accepts) (hstage : e.stage = .finished)
    (hother : ∀ theirs, event.Brings (challenge theirs) → theirs.length ≠ nonceSize) :
    e.network.Sends [] (e.hear event).network := by
  obtain ⟨-, ⟨theirs, hbrings, hlength, -⟩ | ⟨-, hsends⟩⟩ :=
    sends_receiveOne (l := ⟨e.connection, e.network.hearing [event]⟩) ha rfl
  · exact absurd hlength (hother theirs hbrings)
  · rw [hear_of_finished hstage]
    exact hsends.after rfl

/-- A read takes some time if nothing comes. -/
theorem Alive.patience_pos (h : e.Alive due p) : 0 < e.patience := by
  have hinterval : 0 < resendInterval := by decide
  rcases h.stage with ⟨-, hstage⟩ | ⟨-, deadline, -, hstage⟩
  · rw [patience, hstage]
    exact h.reads
  · rw [patience, hstage]
    exact hinterval

/-- An end that waits for its proof is still exchanging. -/
theorem Alive.lapse_eq (h : e.Alive due p) (hopen : p.verified = false) :
    e.lapse = e.network.now + (resendInterval : Int) := by
  rcases h.stage with ⟨hdone, -⟩ | ⟨-, deadline, -, hstage⟩
  · rw [(Progress.eq_of_done hdone).2] at hopen
    cases hopen
  · rw [lapse, patience, hstage]

/-- **When its read times out, an end that waits for the proof sends its challenge again.** -/
theorem Alive.quiet (h : e.Alive due p) (htime : e.lapse < due) :
    e.Turn due .quiet p (if p.verified then [] else [challenge e.nonce]) := by
  rcases h.stage with ⟨hdone, hstage⟩ | ⟨-, deadline, hdeadline, hstage⟩
  · rw [(Progress.eq_of_done hdone).2, if_pos rfl]
    refine turn_of_finished h hdone hstage (sends_of_finished h.accepts hstage ?_)
    rintro theirs ⟨sender, hbrings⟩
    cases hbrings
  · obtain ⟨m, hstep, ha, hsends⟩ :=
      step_of_silence e.key e.nonce p (n := e.network.hearing [.quiet]) h.accepts rfl
    exact turn_of_step h hstage hdeadline hstep ha (hsends.after rfl) htime

/-- **A challenge is answered.** -/
theorem Alive.challenge (h : e.Alive due p) {theirs : Bytes} (hlength : theirs.length = nonceSize)
    (sender : Endpoint) (delay : Nat) (htime : e.network.now + (delay : Int) < due) :
    e.Turn due ⟨.datagram (challenge theirs) sender, delay⟩ { p with answered := true }
      [proof e.key theirs] := by
  rcases h.stage with ⟨hdone, hstage⟩ | ⟨-, deadline, hdeadline, hstage⟩
  · have hsame : { p with answered := true } = p := by rw [← (Progress.eq_of_done hdone).1]
    rw [hsame]
    exact turn_of_finished h hdone hstage (hear_challenge h.accepts hstage ⟨sender, rfl⟩ hlength)
  · obtain ⟨m, hstep, ha, hsends⟩ :=
      step_hears_challenge e.key e.nonce p h.accepts hlength sender delay
    exact turn_of_step h hstage hdeadline hstep ha hsends htime

/-- **The proof of its nonce is taken.** -/
theorem Alive.proof (h : e.Alive due p) (sender : Endpoint) (delay : Nat)
    (htime : e.network.now + (delay : Int) < due) :
    e.Turn due ⟨.datagram (proof e.key e.nonce) sender, delay⟩ { p with verified := true } [] := by
  rcases h.stage with ⟨hdone, hstage⟩ | ⟨-, deadline, hdeadline, hstage⟩
  · have hsame : { p with verified := true } = p := by rw [← (Progress.eq_of_done hdone).2]
    rw [hsame]
    refine turn_of_finished h hdone hstage (sends_of_finished h.accepts hstage ?_)
    rintro theirs ⟨sender', hbrings⟩
    cases hbrings
  · obtain ⟨m, hstep, ha, hsends⟩ := step_hears_proof e.key e.nonce p h.accepts sender delay
    exact turn_of_step h hstage hdeadline hstep ha hsends htime

end End

end Framecast.Authentication
