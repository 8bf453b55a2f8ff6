/-
One end of a handshake, driven from outside.

The program reads in a loop until it is done, from a script that is there from the start.
Here the loop is taken apart: an `End` starts once and then hears one event after another,
each by the program's own step, so that what it hears next may depend on what it and its
peer have sent so far.  An end that is done goes on as a connection that is read from.

`Follows` ties the two together: an end that has heard some events is where the program is
after them, whatever the rest of its script.  `Reacts` says all that an event can do.
-/
import Framecast.Proofs.Authentication.Reflection
import Framecast.Proofs.Connection.Reading

namespace Framecast

/-- The event brings this datagram. -/
def Event.Brings (event : Event) (d : Bytes) : Prop :=
  ∃ sender, event.arrival = .datagram d sender

theorem Event.brings_iff {event : Event} {d : Bytes} :
    event.Brings d ↔ event.datagram? = some d := by
  unfold Event.Brings Event.datagram?
  cases event.arrival with
  | datagram bytes sender => simp
  | failure | silence => simp

/-- The event does not make a read fail for good. -/
def Event.Harmless (event : Event) : Prop :=
  ∀ errno, event.arrival = .failure errno →
    errno.isTimeout = true ∨ errno = .connectionRefused ∨ errno = .interrupted

namespace Network

/-- The network with these arrivals to come. -/
def hearing (n : Network) (events : List Event) : Network :=
  { n with inbound := events }

end Network

namespace Action

variable {α β : Type} {x : Action Network α}

/-- The action does the same whatever is still to arrive, and leaves that alone. -/
def Blind (x : Action Network α) : Prop :=
  ∀ n later, x (n.hearing later) = ((x n).1, (x n).2.hearing later)

theorem blind_pure (a : α) : Blind (pure a : Action Network α) := fun _ _ => rfl

theorem blind_fail (e : Failure) : Blind (fail e : Action Network α) := fun _ _ => rfl

theorem Blind.bind {f : α → Action Network β} (hx : Blind x) (hf : ∀ a, Blind (f a)) :
    Blind (x >>= f) := by
  intro n later
  rw [bind_apply, bind_apply, hx n later]
  cases x n with
  | mk r m =>
      cases r with
      | error e => rfl
      | ok a => exact hf a m later

theorem blind_send (d : Bytes) : Blind (Action.ofCall fun n : Network => n.send d) := by
  rintro ⟨now, inbound, outbound, faults, random, trace, receives⟩ later
  cases outbound with
  | nil => rfl
  | cons fate rest => cases fate <;> rfl

theorem blind_setReadTimeout : Blind (Action.ofCheck Network.setReadTimeout) := by
  rintro ⟨now, inbound, outbound, ⟨openSocket, bind, connect, setReadTimeout⟩, rest⟩ later
  cases setReadTimeout <;> rfl

theorem blind_drawBytes (size : Nat) : Blind (Network.drawBytes size) := by
  intro n later
  have hsame : (n.hearing later).random = n.random := rfl
  unfold Network.drawBytes Network.draw
  rw [hsame]
  cases n.random.draw? size <;> rfl

end Action

namespace Authentication

/-! ### Ends -/

/-- How far an end is. -/
inductive Stage where
  /-- It has not started. -/
  | idle
  | exchanging (deadline : Int) (p : Progress)
  /-- The handshake is done, and the connection is read from. -/
  | finished
  | failed (why : Failure)

/-- What a loop that has come to `p` does before it reads again. -/
def settle (deadline : Int) (p : Progress) (now : Int) : Stage :=
  if p.isDone then .finished
  else if deadline ≤ now then .failed .handshakeTimeout
  else .exchanging deadline p

/-- Where an end stands after a step. -/
def outcome (deadline : Int) (now : Int) : Except Failure Progress → Stage
  | .ok p => settle deadline p now
  | .error why => .failed why

/-- One end of a handshake. -/
structure End where
  /-- The connection that stands once the handshake is done; the key is its key. -/
  connection : Connection
  /-- The time the handshake may take. -/
  timeout : Nat
  /-- The network as it was at first. -/
  origin : Network
  network : Network
  /-- What it has heard. -/
  heard : List Event := []
  nonce : Bytes := []
  stage : Stage := .idle

namespace End

def key (e : End) : Key := e.connection.key

/-- The datagrams it has sent, in order. -/
def sent (e : End) : List Bytes := sentSince e.origin e.network

/-- The script of a program that hears the same, and then `later`. -/
def script (e : End) (later : List Event) : Network :=
  e.origin.hearing (e.heard ++ later)

/-- Draws the nonce and sends the challenge, unless this has been done. -/
def start (e : End) : End :=
  match e.stage with
  | .idle =>
    match opening e.network with
    | (.ok nonce, n) =>
      { e with network := n, nonce, stage := settle (n.now + (e.timeout : Int)) {} n.now }
    | (.error why, n) => { e with network := n, stage := .failed why }
  | _ => e

/-- Hears an event: by a step of the exchange while it lasts, by a read of the connection
once it is done. -/
def hear (e : End) (event : Event) : End :=
  match e.stage with
  | .exchanging deadline p =>
    let (r, n) := step e.key e.nonce p (e.network.hearing [event])
    { e with network := n, heard := e.heard ++ [event], stage := outcome deadline n.now r }
  | .finished =>
    let l := (Link.receiveOne ⟨e.connection, e.network.hearing [event]⟩).2
    { e with connection := l.connection, network := l.network, heard := e.heard ++ [event] }
  | _ => e

/-- An end that has done nothing, in a world that refuses no send. -/
structure Fresh (e : End) : Prop where
  stage : e.stage = .idle
  network : e.network = e.origin
  heard : e.heard = []
  accepts : e.origin.Accepts

end End

/-! ### What starting does -/

section Opening

variable {key : Key} {timeout : Nat} {n k : Network}

theorem blind_opening : Action.Blind opening :=
  Action.blind_setReadTimeout.bind fun _ =>
    (Action.blind_drawBytes _).bind fun _ => (Action.blind_send _).bind fun _ => Action.blind_pure _

/-- A run whose opening fails comes to that. -/
theorem run_of_opening_error {why : Failure} (h : opening n = (.error why, k)) :
    run key timeout n = (.error why, k) := by
  unfold run
  rcases Action.bind_eq_error h with hcheck | ⟨u, k1, hcheck, h⟩
  · exact Action.bind_of_error hcheck
  rcases Action.bind_eq_error h with hdraw | ⟨nonce, k2, hdraw, h⟩
  · rw [Action.bind_of_ok hcheck, Action.bind_of_error hdraw]
  rcases Action.bind_eq_error h with hsend | ⟨u', k3, hsend, h⟩
  · rw [Action.bind_of_ok hcheck, Action.bind_of_ok hdraw, Action.bind_of_error hsend]
  · cases h

/-- Where sends succeed, an opening sends the challenge of its nonce, or fails unheard and
before there is a proof to reject. -/
theorem opening_cases (h : n.Accepts) :
    (∃ nonce k, opening n = (.ok nonce, k) ∧ nonce.length = nonceSize ∧ k.Accepts ∧
        n.Sends [challenge nonce] k) ∨
      ∃ why k, opening n = (.error why, k) ∧ why ≠ .proofRejected ∧ k.Accepts ∧
        n.Sends [] k := by
  unfold opening
  cases hset : n.setReadTimeout with
  | error errno =>
      rw [Action.bind_of_error (Action.ofCheck_of_error hset)]
      exact Or.inr ⟨_, _, rfl, Failure.noConfusion, h, .refl n⟩
  | ok u =>
      rw [Action.bind_of_ok (Action.ofCheck_of_ok hset)]
      rcases n.draw_cases nonceSize with hdraw | ⟨nonce, random, hdraw, hlength⟩
      · have hdrawn : Network.drawBytes nonceSize n = (.error .sealing, n) := by
          rw [Network.drawBytes, hdraw]
        rw [Action.bind_of_error hdrawn]
        exact Or.inr ⟨_, _, rfl, Failure.noConfusion, h, .refl n⟩
      · have hdrawn : Network.drawBytes nonceSize n = (.ok nonce, { n with random }) := by
          rw [Network.drawBytes, hdraw]
        have haccepts : Network.Accepts { n with random } := h
        obtain ⟨k, hsend, hk, hsends⟩ := haccepts.send (challenge nonce)
        rw [Action.bind_of_ok hdrawn, Action.bind_of_ok hsend]
        exact Or.inl ⟨nonce, k, rfl, hlength, hk, hsends.after rfl⟩

end Opening

/-! ### What hearing does -/

section Hear

variable {key : Key} {nonce : Bytes} {p : Progress} {n : Network} {event : Event}

theorem blind_afterError (nonce : Bytes) (p : Progress) (errno : Errno) :
    Action.Blind (afterError nonce p errno) := by
  unfold afterError
  split
  · split
    · exact Action.blind_pure p
    · exact (Action.blind_send _).bind fun _ => Action.blind_pure p
  · split
    · exact Action.blind_pure p
    · exact Action.blind_fail _

theorem blind_afterDatagram (key : Key) (nonce : Bytes) (p : Progress) (d : Bytes) :
    Action.Blind (afterDatagram key nonce p d) := by
  unfold afterDatagram
  cases meaning d with
  | challenge theirs => exact (Action.blind_send _).bind fun _ => Action.blind_pure _
  | proof given =>
      dsimp only
      split
      · exact Action.blind_pure _
      · exact Action.blind_fail _
  | noise => exact Action.blind_pure p

/-- A step consumes one event and does not look at those after it. -/
theorem step_hearing (key : Key) (nonce : Bytes) (p : Progress) (n : Network) (event : Event)
    (later : List Event) :
    step key nonce p (n.hearing (event :: later)) =
      ((step key nonce p (n.hearing [event])).1,
        (step key nonce p (n.hearing [event])).2.hearing later) := by
  obtain ⟨arrival, delay⟩ := event
  cases arrival with
  | datagram d sender =>
      exact blind_afterDatagram key nonce p (d.take capacity)
        ((n.hearing [⟨.datagram d sender, delay⟩]).returned [] delay) later
  | failure errno =>
      exact blind_afterError nonce p errno
        ((n.hearing [⟨.failure errno, delay⟩]).returned [] delay) later
  | silence =>
      exact blind_afterError nonce p .again
        ((n.hearing [⟨.silence, delay⟩]).returned [] resendInterval) later

end Hear

namespace End

variable {e : End} {event : Event}

theorem hear_of_exchanging {deadline : Int} {p : Progress} {r : Except Failure Progress}
    {m : Network} (hstage : e.stage = .exchanging deadline p)
    (hstep : step e.key e.nonce p (e.network.hearing [event]) = (r, m)) :
    e.hear event =
      { e with network := m, heard := e.heard ++ [event], stage := outcome deadline m.now r } := by
  unfold hear
  rw [hstage]
  dsimp only
  rw [hstep]

theorem hear_of_finished (hstage : e.stage = .finished) :
    e.hear event =
      { e with
        connection := (Link.receiveOne ⟨e.connection, e.network.hearing [event]⟩).2.connection
        network := (Link.receiveOne ⟨e.connection, e.network.hearing [event]⟩).2.network
        heard := e.heard ++ [event] } := by
  unfold hear
  rw [hstage]

theorem hear_of_idle (hstage : e.stage = .idle) : e.hear event = e := by
  unfold hear
  rw [hstage]

theorem hear_of_failed {why : Failure} (hstage : e.stage = .failed why) : e.hear event = e := by
  unfold hear
  rw [hstage]

/-- Hearing leaves who the end is. -/
theorem hear_same (e : End) (event : Event) :
    (e.hear event).key = e.key ∧ (e.hear event).nonce = e.nonce ∧
      (e.hear event).origin = e.origin ∧ (e.hear event).timeout = e.timeout := by
  cases hstage : e.stage with
  | idle =>
      rw [hear_of_idle hstage]
      exact ⟨rfl, rfl, rfl, rfl⟩
  | exchanging deadline p =>
      rw [hear_of_exchanging hstage rfl]
      exact ⟨rfl, rfl, rfl, rfl⟩
  | finished =>
      rw [hear_of_finished hstage]
      exact ⟨Link.key_receiveOne _, rfl, rfl, rfl⟩
  | failed why =>
      rw [hear_of_failed hstage]
      exact ⟨rfl, rfl, rfl, rfl⟩

/-- What hearing an event can do: the datagrams it sends and where it leads. -/
inductive Reacts (e : End) (event : Event) : List Bytes → Stage → Prop
  | nothing : Reacts e event [] e.stage
  | exchanges {deadline now : Int} {p : Progress} {r : Except Failure Progress}
      {out : List Bytes} (hstage : e.stage = .exchanging deadline p)
      (htakes : Takes e.key e.nonce p (e.network.hearing [event]) r out) :
      Reacts e event out (outcome deadline now r)
  /-- A finished end answers a challenge. -/
  | answers {theirs : Bytes} (hstage : e.stage = .finished)
      (hbrings : event.Brings (challenge theirs)) (hlength : theirs.length = nonceSize) :
      Reacts e event [proof e.key theirs] .finished

/-- A connection answers a challenge that it reads, and sends nothing else. -/
theorem sends_receiveOne {l : Link} (ha : l.network.Accepts)
    (hin : l.network.inbound = [event]) :
    (Link.receiveOne l).2.network.Accepts ∧
      ((∃ theirs, event.Brings (challenge theirs) ∧ theirs.length = nonceSize ∧
          l.network.Sends [proof l.connection.key theirs] (Link.receiveOne l).2.network) ∨
        (∀ theirs, event.Brings (challenge theirs) → theirs.length ≠ nonceSize) ∧
          l.network.Sends [] (Link.receiveOne l).2.network) := by
  rw [Link.network_receiveOne, Network.receive, hin]
  obtain ⟨arrival, delay⟩ := event
  cases arrival with
  | silence =>
      refine ⟨ha, Or.inr ⟨?_, .of_trace_eq rfl⟩⟩
      rintro theirs ⟨sender, hbrings⟩
      cases hbrings
  | failure errno =>
      refine ⟨ha, Or.inr ⟨?_, .of_trace_eq rfl⟩⟩
      rintro theirs ⟨sender, hbrings⟩
      cases hbrings
  | datagram d sender =>
      have hmeaning : meaning (d.take Sealed.maxSize) = meaning d :=
        meaning_take_of_le (by decide) d
      have hnone (hother : ∀ theirs, meaning d ≠ .challenge theirs) (theirs : Bytes)
          (hbrings : Event.Brings ⟨.datagram d sender, delay⟩ (challenge theirs)) :
          theirs.length ≠ nonceSize := by
        obtain ⟨sender', hdatagram⟩ := hbrings
        cases hdatagram
        exact fun hlength => hother theirs (meaning_eq_challenge.mpr ⟨rfl, hlength⟩)
      dsimp only
      unfold answerLate
      rw [hmeaning]
      cases hmeans : meaning d with
      | challenge theirs =>
          obtain ⟨rfl, hlength⟩ := meaning_eq_challenge.mp hmeans
          have hwaited : (l.network.returned [] delay).Accepts := ha
          obtain ⟨m, hsend, hm, hsends⟩ := hwaited.send (proof l.connection.key theirs)
          dsimp only
          rw [answer, Action.bind_of_ok hsend]
          exact ⟨hm, Or.inl ⟨theirs, ⟨sender, rfl⟩, hlength, hsends.after rfl⟩⟩
      | proof given =>
          refine ⟨ha, Or.inr ⟨hnone fun theirs => ?_, .of_trace_eq rfl⟩⟩
          rw [hmeans]
          exact Meaning.noConfusion
      | noise =>
          refine ⟨ha, Or.inr ⟨hnone fun theirs => ?_, .of_trace_eq rfl⟩⟩
          rw [hmeans]
          exact Meaning.noConfusion

/-- **Everything that hearing an event can do.** -/
theorem hear_reacts (e : End) (event : Event) (ha : e.network.Accepts) :
    ∃ out, e.Reacts event out (e.hear event).stage ∧ (e.hear event).network.Accepts ∧
      e.network.Sends out (e.hear event).network := by
  cases hstage : e.stage with
  | idle =>
      rw [hear_of_idle hstage]
      exact ⟨[], .nothing, ha, .refl e.network⟩
  | failed why =>
      rw [hear_of_failed hstage]
      exact ⟨[], .nothing, ha, .refl e.network⟩
  | exchanging deadline p =>
      obtain ⟨out, htakes, hsends, haccepts⟩ :=
        step_takes e.key e.nonce p (e.network.hearing [event])
      rw [hear_of_exchanging hstage rfl]
      exact ⟨out, .exchanges hstage htakes, haccepts ha, hsends.after rfl⟩
  | finished =>
      obtain ⟨haccepts, hout⟩ := sends_receiveOne
        (l := ⟨e.connection, e.network.hearing [event]⟩) ha rfl
      rw [hear_of_finished hstage]
      dsimp only
      rw [hstage]
      rcases hout with ⟨theirs, hbrings, hlength, hsends⟩ | ⟨-, hsends⟩
      · exact ⟨_, .answers hstage hbrings hlength, haccepts, hsends.after rfl⟩
      · exact ⟨[], hstage ▸ .nothing, haccepts, hsends.after rfl⟩

/-- A finished end answers every challenge it hears. -/
theorem hear_challenge (ha : e.network.Accepts) (hstage : e.stage = .finished) {theirs : Bytes}
    (hbrings : event.Brings (challenge theirs)) (hlength : theirs.length = nonceSize) :
    e.network.Sends [proof e.key theirs] (e.hear event).network := by
  obtain ⟨-, hout⟩ := sends_receiveOne (l := ⟨e.connection, e.network.hearing [event]⟩) ha rfl
  rw [hear_of_finished hstage]
  rcases hout with ⟨nonce, hother, -, hsends⟩ | ⟨hnone, -⟩
  · obtain ⟨sender, hfirst⟩ := hbrings
    obtain ⟨sender', hsecond⟩ := hother
    rw [hfirst] at hsecond
    cases hsecond
    exact hsends.after rfl
  · exact absurd hlength (hnone theirs hbrings)

/-- The proof of its nonce takes an end that waits for it to the end. -/
theorem hear_proof {deadline : Int} (hstage : e.stage = .exchanging deadline { answered := true })
    (hbrings : event.Brings (proof e.key e.nonce)) : (e.hear event).stage = .finished := by
  obtain ⟨sender, hdatagram⟩ := hbrings
  have harrives : Arrives (e.network.hearing [event]) (proof e.key e.nonce) := by
    refine ⟨sender, event.delay, [], ?_⟩
    rw [← hdatagram]
    rfl
  have hmeans : meaning (proof e.key e.nonce) = .proof (code e.key e.nonce) :=
    meaning_eq_proof.mpr ⟨rfl, length_code e.key e.nonce⟩
  obtain ⟨m, hstep⟩ := step_of_proof { answered := true } harrives hmeans
  rw [hear_of_exchanging hstage hstep]
  rfl

/-- An end that waits for a proof sends its challenge again when it hears nothing. -/
theorem hear_silence (ha : e.network.Accepts) {deadline : Int} {p : Progress}
    (hstage : e.stage = .exchanging deadline p) (hwaits : p.verified = false) (delay : Nat) :
    e.network.Sends [challenge e.nonce] (e.hear ⟨.silence, delay⟩).network := by
  obtain ⟨m, hstep, -, hsends⟩ :=
    step_of_silence e.key e.nonce p (n := e.network.hearing [⟨.silence, delay⟩]) ha rfl
  rw [hear_of_exchanging hstage hstep]
  rw [hwaits] at hsends
  exact hsends.after rfl

theorem start_of_ne_idle (h : e.stage ≠ .idle) : e.start = e := by
  unfold start
  cases hstage : e.stage with
  | idle => exact absurd hstage h
  | exchanging deadline p => rfl
  | finished => rfl
  | failed why => rfl

theorem start_of_ok {nonce : Bytes} {k : Network} (hstage : e.stage = .idle)
    (h : opening e.network = (.ok nonce, k)) :
    e.start =
      { e with network := k, nonce, stage := settle (k.now + (e.timeout : Int)) {} k.now } := by
  unfold start
  rw [hstage]
  dsimp only
  rw [h]

theorem start_of_error {why : Failure} {k : Network} (hstage : e.stage = .idle)
    (h : opening e.network = (.error why, k)) :
    e.start = { e with network := k, stage := .failed why } := by
  unfold start
  rw [hstage]
  dsimp only
  rw [h]

theorem start_same (e : End) :
    e.start.key = e.key ∧ e.start.origin = e.origin ∧ e.start.timeout = e.timeout := by
  by_cases hstage : e.stage = .idle
  · cases hopening : opening e.network with
    | mk r k =>
        cases r with
        | ok nonce =>
            rw [start_of_ok hstage hopening]
            exact ⟨rfl, rfl, rfl⟩
        | error why =>
            rw [start_of_error hstage hopening]
            exact ⟨rfl, rfl, rfl⟩
  · rw [start_of_ne_idle hstage]
    exact ⟨rfl, rfl, rfl⟩

/-- **What starting does:** it sends the challenge, or it fails and sends nothing. -/
theorem start_cases (ha : e.network.Accepts) (hstage : e.stage = .idle) :
    e.start.network.Accepts ∧
      ((e.start.nonce.length = nonceSize ∧
          (∃ deadline now, e.start.stage = settle deadline {} now) ∧
          e.network.Sends [challenge e.start.nonce] e.start.network) ∨
        (∃ why, e.start.stage = .failed why ∧ why ≠ .proofRejected) ∧
          e.network.Sends [] e.start.network) := by
  rcases opening_cases ha with
    ⟨nonce, k, hopening, hlength, hk, hsends⟩ | ⟨why, k, hopening, hwhy, hk, hsends⟩
  · rw [start_of_ok hstage hopening]
    exact ⟨hk, Or.inl ⟨hlength, ⟨_, _, rfl⟩, hsends⟩⟩
  · rw [start_of_error hstage hopening]
    exact ⟨hk, Or.inr ⟨⟨why, rfl, hwhy⟩, hsends⟩⟩

end End

/-! ### An end is where the program is -/

section Settle

variable {key : Key} {nonce : Bytes} {deadline now : Int} {p : Progress} {m : Network}

theorem settle_of_done (h : p.isDone = true) : settle deadline p now = .finished := if_pos h

theorem settle_of_late (h : p.isDone = false) (hlate : deadline ≤ now) :
    settle deadline p now = .failed .handshakeTimeout := by
  rw [settle, if_neg (by rw [h]; exact Bool.noConfusion), if_pos hlate]

theorem settle_of_open (h : p.isDone = false) (htime : now < deadline) :
    settle deadline p now = .exchanging deadline p := by
  rw [settle, if_neg (by rw [h]; exact Bool.noConfusion), if_neg (by omega)]

theorem exchange_of_late (h : p.isDone = false) (hlate : deadline ≤ m.now) :
    exchange key nonce deadline p m = (.error .handshakeTimeout, m) := by
  rw [exchange, if_neg (by rw [h]; exact Bool.noConfusion), dif_pos hlate]

theorem exchange_of_step_error {why : Failure} {k : Network} (h : p.isDone = false)
    (htime : m.now < deadline) (hstep : step key nonce p m = (.error why, k)) :
    exchange key nonce deadline p m = (.error why, k) := by
  rw [exchange, if_neg (by rw [h]; exact Bool.noConfusion), dif_neg (by omega)]
  split
  · rename_i e l hs
    rw [hstep] at hs
    cases hs
    rfl
  · rename_i q l hs
    rw [hstep] at hs
    cases hs

end Settle

/-- Whatever more it hears, the program whose script starts with what the end has heard is
where the end is, or has come to what the end has come to. -/
def Follows (e : End) : Prop :=
  match e.stage with
  | .idle => e.network = e.origin ∧ e.heard = []
  | .exchanging deadline p =>
    p.isDone = false ∧ e.network.now < deadline ∧ ∀ later,
      run e.key e.timeout (e.script later) =
        exchange e.key e.nonce deadline p (e.network.hearing later)
  | .finished => ∀ later, (run e.key e.timeout (e.script later)).1 = .ok ()
  | .failed why => ∀ later, (run e.key e.timeout (e.script later)).1 = .error why

namespace Follows

variable {e : End}

theorem fresh (h : e.Fresh) : Follows e := by
  unfold Follows
  rw [h.stage]
  exact ⟨h.network, h.heard⟩

theorem of_failed {why : Failure} (hstage : e.stage = .failed why)
    (hrun : ∀ later, (run e.key e.timeout (e.script later)).1 = .error why) : Follows e := by
  unfold Follows
  rw [hstage]
  exact hrun

theorem of_settle (deadline : Int) (p : Progress)
    (hstage : e.stage = settle deadline p e.network.now)
    (hrun : ∀ later, run e.key e.timeout (e.script later) =
      exchange e.key e.nonce deadline p (e.network.hearing later)) : Follows e := by
  unfold Follows
  rw [hstage]
  cases hdone : p.isDone with
  | true =>
      rw [settle_of_done hdone]
      intro later
      rw [hrun, exchange_of_done hdone]
  | false =>
      by_cases hlate : deadline ≤ e.network.now
      · rw [settle_of_late hdone hlate]
        intro later
        rw [hrun, exchange_of_late (m := e.network.hearing later) hdone hlate]
      · have htime : e.network.now < deadline := by omega
        rw [settle_of_open hdone htime]
        exact ⟨hdone, htime, hrun⟩

theorem start (h : Follows e) : Follows e.start := by
  by_cases hidle : e.stage = .idle
  swap
  · rw [End.start_of_ne_idle hidle]
    exact h
  unfold Follows at h
  rw [hidle] at h
  obtain ⟨hnetwork, hheard⟩ := h
  have hscript (later : List Event) : e.script later = e.network.hearing later := by
    rw [End.script, hheard, ← hnetwork, List.nil_append]
  cases hopening : opening e.network with
  | mk r k =>
      have hblind (later : List Event) :
          opening (e.network.hearing later) = (r, k.hearing later) := by
        rw [blind_opening, hopening]
      cases r with
      | ok nonce =>
          rw [End.start_of_ok hidle hopening]
          refine of_settle (k.now + (e.timeout : Int)) {} rfl fun later => ?_
          show run e.key e.timeout (e.script later) = _
          rw [hscript, run_of_opening (hblind later)]
          rfl
      | error why =>
          rw [End.start_of_error hidle hopening]
          refine of_failed rfl fun later => ?_
          show (run e.key e.timeout (e.script later)).1 = _
          rw [hscript, run_of_opening_error (hblind later)]

/-- **A step of an end is a step of the program.** -/
theorem hear (h : Follows e) (event : Event) : Follows (e.hear event) := by
  have hscript (heard later : List Event) :
      e.origin.hearing ((heard ++ [event]) ++ later) =
        e.origin.hearing (heard ++ event :: later) := by
    rw [List.append_assoc, List.singleton_append]
  cases hstage : e.stage with
  | idle =>
      rw [End.hear_of_idle hstage]
      exact h
  | failed why =>
      rw [End.hear_of_failed hstage]
      exact h
  | finished =>
      unfold Follows at h
      rw [hstage] at h
      have hafter : (e.hear event).stage = .finished ∧
          (e.hear event).heard = e.heard ++ [event] := by
        rw [End.hear_of_finished hstage]
        exact ⟨hstage, rfl⟩
      obtain ⟨hkey, -, horigin, htimeout⟩ := End.hear_same e event
      unfold Follows
      rw [hafter.1]
      intro later
      rw [End.script, hkey, horigin, htimeout, hafter.2, hscript]
      exact h (event :: later)
  | exchanging deadline p =>
      unfold Follows at h
      rw [hstage] at h
      obtain ⟨hopen, htime, hrun⟩ := h
      cases hstep : step e.key e.nonce p (e.network.hearing [event]) with
      | mk r m =>
          have hnext (later : List Event) :
              step e.key e.nonce p (e.network.hearing (event :: later)) = (r, m.hearing later) := by
            rw [step_hearing, hstep]
          rw [End.hear_of_exchanging hstage hstep]
          cases r with
          | ok q =>
              refine of_settle deadline q rfl fun later => ?_
              rw [End.script, hscript]
              exact (hrun (event :: later)).trans (exchange_of_step hopen htime (hnext later))
          | error why =>
              refine of_failed rfl fun later => ?_
              have hfails := exchange_of_step_error (m := e.network.hearing (event :: later)) hopen
                htime (hnext later)
              rw [End.script, hscript]
              exact congrArg Prod.fst ((hrun (event :: later)).trans hfails)

end Follows

end Authentication

end Framecast
