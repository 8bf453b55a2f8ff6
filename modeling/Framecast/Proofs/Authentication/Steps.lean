/-
The handshake of one side, step by step.

A run is an opening, which draws the nonce and sends the challenge, and then an
exchange of steps.  `Takes` says all that a step can make of the event that comes: it
may wait, send the challenge again, answer a challenge, take or reject a proof, pass
over anything else, or break off.  `Reaches` follows the steps up to some point, and
the exchange goes on from there as if it had started there.

A read is cut to a number of bytes, but no datagram that means something is as long.
-/
import Framecast.Authentication.Exchange
import Framecast.Proofs.Network.Sends
import Framecast.Proofs.Network.Waits

namespace Framecast.Authentication

/-! ### What a datagram means, cut or not -/

theorem meaning_eq_challenge {d theirs : Bytes} :
    meaning d = .challenge theirs ↔ d = challenge theirs ∧ theirs.length = nonceSize := by
  unfold meaning challenge
  cases d with
  | nil => simp
  | cons tag rest =>
      dsimp only
      split
      · rename_i hc
        obtain ⟨rfl, hlength⟩ := hc
        constructor
        · intro heq
          cases heq
          exact ⟨rfl, hlength⟩
        · rintro ⟨heq, -⟩
          cases heq
          rfl
      · rename_i hnot
        constructor
        · intro heq
          split at heq <;> cases heq
        · rintro ⟨heq, hlength⟩
          cases heq
          exact absurd ⟨rfl, hlength⟩ hnot

theorem meaning_eq_proof {d given : Bytes} :
    meaning d = .proof given ↔ d = proofTag :: given ∧ given.length = codeSize := by
  unfold meaning
  cases d with
  | nil => simp
  | cons tag rest =>
      dsimp only
      split
      · rename_i hc
        constructor
        · intro heq
          cases heq
        · rintro ⟨heq, -⟩
          cases heq
          exact absurd hc.1 (by decide)
      · split
        · rename_i hc
          obtain ⟨rfl, hlength⟩ := hc
          constructor
          · intro heq
            cases heq
            exact ⟨rfl, hlength⟩
          · rintro ⟨heq, -⟩
            cases heq
            rfl
        · rename_i hnot
          constructor
          · intro heq
            cases heq
          · rintro ⟨heq, hlength⟩
            cases heq
            exact absurd ⟨rfl, hlength⟩ hnot

theorem length_code (key : Key) (nonce : Bytes) : (code key nonce).length = codeSize := by
  have hbytes (s : Sha256.State) : s.toBytes.length = codeSize := by
    simp [Sha256.State.toBytes, codeSize]
  exact hbytes _

/-- Cutting a datagram to what is read of it does not change its meaning. -/
theorem meaning_take (d : Bytes) : meaning (d.take capacity) = meaning d := by
  by_cases hlength : d.length ≤ capacity
  · rw [List.take_of_length_le hlength]
  · have hcut : (d.take capacity).length = capacity := by
      rw [List.length_take]
      omega
    -- Both are longer than any challenge or proof.
    have hlong (e : Bytes) (h : capacity ≤ e.length) : meaning e = .noise := by
      have hcapacity : capacity = 64 := rfl
      cases hmeans : meaning e with
      | challenge theirs =>
          exfalso
          obtain ⟨rfl, hsize⟩ := meaning_eq_challenge.mp hmeans
          rw [challenge, List.length_cons, hsize] at h
          exact absurd h (by decide)
      | proof given =>
          exfalso
          obtain ⟨rfl, hsize⟩ := meaning_eq_proof.mp hmeans
          rw [List.length_cons, hsize] at h
          exact absurd h (by decide)
      | noise => rfl
    rw [hlong _ (by omega), hlong _ (by omega)]

/-- A longer read does not change it either. -/
theorem meaning_take_of_le {size : Nat} (h : capacity ≤ size) (d : Bytes) :
    meaning (d.take size) = meaning d := by
  rw [← meaning_take (d.take size), List.take_take, Nat.min_eq_left h, meaning_take]

/-! ### Sending -/

/-- A send that does not fail leaves its datagram in the trace and changes nothing else
but the fates of the sends to come. -/
theorem send_eq_ok {m m' : Network} {d : Bytes}
    (h : Action.ofCall (·.send d) m = (.ok (), m')) :
    m'.trace = m.trace.push (m.now, .sent d) ∧ m'.inbound = m.inbound ∧ m'.now = m.now := by
  unfold Action.ofCall at h
  simp only [Network.send, Network.attempt] at h
  cases hout : m.outbound with
  | nil =>
      rw [hout] at h
      cases h
      exact ⟨rfl, rfl, rfl⟩
  | cons fate later =>
      rw [hout] at h
      cases fate with
      | none =>
          cases h
          exact ⟨rfl, rfl, rfl⟩
      | some errno => cases h

/-! ### One step -/

/-- The next arrival is this datagram. -/
def Arrives (m : Network) (d : Bytes) : Prop :=
  ∃ sender delay later, m.inbound = ⟨.datagram d sender, delay⟩ :: later

theorem arrives_iff {m : Network} {d : Bytes} : Arrives m d ↔ m.next.datagram? = some d := by
  unfold Arrives Network.next Event.datagram?
  cases m.inbound with
  | nil =>
      refine iff_of_false ?_ nofun
      rintro ⟨sender, delay, later, hin⟩
      cases hin
  | cons e later =>
      obtain ⟨arrival, delay⟩ := e
      cases arrival with
      | datagram bytes sender =>
          rw [List.headD_cons, Option.some.injEq]
          constructor
          · rintro ⟨sender', delay', later', hin⟩
            cases hin
            rfl
          · rintro rfl
            exact ⟨sender, delay, later, rfl⟩
      | failure | silence =>
          refine iff_of_false ?_ nofun
          rintro ⟨sender, delay', later', hin⟩
          cases hin

/-- What a step can make of the next event of `n`: how it ends, and what it sends. -/
inductive Takes (key : Key) (nonce : Bytes) (p : Progress) (n : Network) :
    Except Failure Progress → List Bytes → Prop
  /-- No datagram comes, and there is nothing to send again. -/
  | waits (hnone : n.next.datagram? = none)
      (hidle : p.verified = true ∨ n.next.arrival = .failure .interrupted) :
      Takes key nonce p n (.ok p) []
  /-- No datagram comes, and the challenge is sent again. -/
  | again (hnone : n.next.datagram? = none) (hopen : p.verified = false) :
      Takes key nonce p n (.ok p) [challenge nonce]
  | breaks {errno : Errno} (hfails : n.next.arrival = .failure errno)
      (hlasting : ¬ (errno.isTimeout = true ∨ errno = .connectionRefused ∨ errno = .interrupted)) :
      Takes key nonce p n (.error (.system errno)) []
  | answers {theirs : Bytes} (hbrings : n.next.datagram? = some (challenge theirs))
      (hlength : theirs.length = nonceSize) :
      Takes key nonce p n (.ok { p with answered := true }) [proof key theirs]
  | verifies (hbrings : n.next.datagram? = some (proof key nonce)) :
      Takes key nonce p n (.ok { p with verified := true }) []
  | rejects {given : Bytes} (hbrings : n.next.datagram? = some (proofTag :: given))
      (hlength : given.length = codeSize) (hwrong : given ≠ code key nonce) :
      Takes key nonce p n (.error .proofRejected) []
  | ignores {d : Bytes} (hbrings : n.next.datagram? = some d) (hnoise : meaning d = .noise) :
      Takes key nonce p n (.ok p) []
  /-- What it has to send is refused. -/
  | refused {errno : Errno} (hrefuses : ¬ n.Accepts) :
      Takes key nonce p n (.error (.system errno)) []

/-- What comes to `x` is a step that makes one of these of the next event of `n`. -/
def TakesTo (key : Key) (nonce : Bytes) (p : Progress) (n : Network)
    (x : Except Failure Progress × Network) : Prop :=
  ∃ out, Takes key nonce p n x.1 out ∧ n.Sends out x.2 ∧ (n.Accepts → x.2.Accepts)

/-- What a step does with what it has read. -/
def react (key : Key) (nonce : Bytes) (p : Progress) :
    Except Errno (Bytes × Endpoint) → Action Network Progress
  | .error errno => afterError nonce p errno
  | .ok (d, _) => afterDatagram key nonce p d

theorem step_eq (key : Key) (nonce : Bytes) (p : Progress) (n : Network) :
    step key nonce p n = react key nonce p (n.next.outcome capacity)
      (n.returned n.inbound.tail (n.next.span resendInterval)) := by
  unfold step
  rw [n.receive_eq]
  cases n.next.outcome capacity <;> rfl

section Step

variable {key : Key} {nonce : Bytes} {p q : Progress} {n k : Network} {d : Bytes}

/-- A step that has something to send ends with that. -/
theorem takesTo_of_send (htrace : k.trace = n.trace) (hout : k.outbound = n.outbound)
    (h : Takes key nonce p n (.ok q) [d]) :
    TakesTo key nonce p n ((Action.ofCall (·.send d) >>= fun _ => pure q) k) := by
  have haccepts : k.Accepts ↔ n.Accepts := by rw [Network.Accepts, hout, Network.Accepts]
  rcases k.send_cases d with ⟨m, hsend, hsends, hm⟩ | ⟨errno, m, hsend, hsends, hrefuses⟩
  · rw [Action.bind_of_ok (Action.ofCall_of_ok hsend)]
    exact ⟨[d], h, hsends.after htrace, fun ha => hm (haccepts.mpr ha)⟩
  · rw [Action.bind_of_error (Action.ofCall_of_error hsend)]
    rw [haccepts] at hrefuses
    exact ⟨[], .refused hrefuses, hsends.after htrace, fun ha => absurd ha hrefuses⟩

/-- A step that sends nothing ends where it is. -/
theorem Takes.here {r : Except Failure Progress} (h : Takes key nonce p n r [])
    (htrace : k.trace = n.trace) (hout : k.outbound = n.outbound) :
    TakesTo key nonce p n (r, k) :=
  ⟨[], h, .of_trace_eq htrace, fun ha => by rwa [Network.Accepts, hout]⟩

theorem takesTo_afterError {errno : Errno} (htrace : k.trace = n.trace)
    (hout : k.outbound = n.outbound) (hnone : n.next.datagram? = none)
    (hcause : errno.isTimeout = true ∨ n.next.arrival = .failure errno) :
    TakesTo key nonce p n (afterError nonce p errno k) := by
  unfold afterError
  by_cases hlapse : errno.isTimeout = true ∨ errno = .connectionRefused
  · rw [if_pos hlapse]
    by_cases hverified : p.verified = true
    · rw [if_pos hverified]
      exact (Takes.waits hnone (Or.inl hverified)).here htrace hout
    · rw [if_neg hverified]
      rw [Bool.not_eq_true] at hverified
      exact takesTo_of_send htrace hout (.again hnone hverified)
  · have hfails := hcause.resolve_left fun h => hlapse (Or.inl h)
    rw [if_neg hlapse]
    by_cases hinterrupted : errno = .interrupted
    · rw [if_pos hinterrupted]
      rw [hinterrupted] at hfails
      exact (Takes.waits hnone (Or.inr hfails)).here htrace hout
    · rw [if_neg hinterrupted]
      refine (Takes.breaks hfails ?_).here htrace hout
      rw [← or_assoc]
      exact not_or.mpr ⟨hlapse, hinterrupted⟩

theorem takesTo_afterDatagram (htrace : k.trace = n.trace) (hout : k.outbound = n.outbound)
    (hd : n.next.datagram? = some d) :
    TakesTo key nonce p n (afterDatagram key nonce p (d.take capacity) k) := by
  unfold afterDatagram
  rw [meaning_take]
  cases hmeans : meaning d with
  | challenge theirs =>
      obtain ⟨rfl, hlength⟩ := meaning_eq_challenge.mp hmeans
      exact takesTo_of_send htrace hout (.answers hd hlength)
  | proof given =>
      obtain ⟨rfl, hlength⟩ := meaning_eq_proof.mp hmeans
      dsimp only
      by_cases hgiven : given = code key nonce
      · rw [if_pos hgiven]
        rw [hgiven] at hd
        exact (Takes.verifies hd).here htrace hout
      · rw [if_neg hgiven]
        exact (Takes.rejects hd hlength hgiven).here htrace hout
  | noise => exact (Takes.ignores hd hmeans).here htrace hout

/-- **What a step makes of the next event.** -/
theorem step_takes (key : Key) (nonce : Bytes) (p : Progress) (n : Network) :
    TakesTo key nonce p n (step key nonce p n) := by
  rw [step_eq]
  cases harrival : n.next.arrival with
  | datagram d sender =>
      have hd : n.next.datagram? = some d := by rw [Event.datagram?, harrival]
      rw [Event.outcome, harrival]
      exact takesTo_afterDatagram rfl rfl hd
  | failure errno =>
      have hnone : n.next.datagram? = none := by rw [Event.datagram?, harrival]
      rw [Event.outcome, harrival]
      exact takesTo_afterError rfl rfl hnone (Or.inr harrival)
  | silence =>
      have hnone : n.next.datagram? = none := by rw [Event.datagram?, harrival]
      rw [Event.outcome, harrival]
      exact takesTo_afterError rfl rfl hnone (Or.inl rfl)

/-- Where no send is refused, silence makes a side that waits for the proof send its challenge
again. -/
theorem step_of_silence (key : Key) (nonce : Bytes) (p : Progress) (ha : n.Accepts)
    (hsilent : n.next.arrival = .silence) :
    ∃ m, step key nonce p n = (.ok p, m) ∧ m.Accepts ∧
      n.Sends (if p.verified then [] else [challenge nonce]) m := by
  have hnone : n.next.datagram? = none := by rw [Event.datagram?, hsilent]
  obtain ⟨out, htakes, hsends, haccepts⟩ := step_takes key nonce p n
  obtain ⟨hok, hout⟩ : (step key nonce p n).1 = .ok p ∧
      out = if p.verified then [] else [challenge nonce] := by
    generalize (step key nonce p n).1 = r at htakes ⊢
    cases htakes with
    | waits _ hidle =>
        have hverified := hidle.resolve_right fun h => nomatch hsilent.symm.trans h
        exact ⟨rfl, (if_pos hverified).symm⟩
    | again _ hopen => exact ⟨rfl, by rw [hopen]; rfl⟩
    | breaks hfails => exact nomatch hsilent.symm.trans hfails
    | answers hbrings | verifies hbrings | rejects hbrings | ignores hbrings =>
        exact nomatch hnone.symm.trans hbrings
    | refused hrefuses => exact absurd ha hrefuses
  rw [hout] at hsends
  exact ⟨(step key nonce p n).2, Prod.ext hok rfl, haccepts ha, hsends⟩

end Step

/-- A proof of the nonce that arrives is taken. -/
theorem step_of_proof {key : Key} {nonce : Bytes} {m : Network} {d : Bytes} (q : Progress)
    (harrives : Arrives m d) (hmeans : meaning d = .proof (code key nonce)) :
    ∃ m', step key nonce q m = (.ok { q with verified := true }, m') := by
  obtain ⟨sender, delay, later, hin⟩ := harrives
  refine ⟨m.returned later delay, ?_⟩
  have hreceive : m.receive resendInterval capacity =
      (.ok (d.take capacity, sender), m.returned later delay) := by
    unfold Network.receive
    rw [hin]
  unfold step
  rw [hreceive]
  show afterDatagram key nonce q (d.take capacity) (m.returned later delay) = _
  unfold afterDatagram
  rw [meaning_take, hmeans]
  dsimp only
  rw [if_pos rfl]
  rfl

/-- A challenge that arrives is answered, if the answer can be sent. -/
theorem step_of_challenge {key : Key} {nonce : Bytes} {m : Network} {d theirs : Bytes}
    {sender : Endpoint} {delay : Nat} {later : List Event} (q : Progress)
    (hin : m.inbound = ⟨.datagram d sender, delay⟩ :: later)
    (hmeans : meaning d = .challenge theirs) (hout : m.outbound = []) :
    step key nonce q m =
      (.ok { q with answered := true },
        (m.returned later delay).note (.sent (proof key theirs))) := by
  have hreceive : m.receive resendInterval capacity =
      (.ok (d.take capacity, sender), m.returned later delay) := by
    unfold Network.receive
    rw [hin]
  have hsend : answer key theirs (m.returned later delay) =
      (.ok (), (m.returned later delay).note (.sent (proof key theirs))) := by
    have hfree : (m.returned later delay).outbound = [] := hout
    refine Action.ofCall_of_ok ?_
    rw [Network.send, Network.attempt, hfree]
  unfold step
  rw [hreceive]
  show afterDatagram key nonce q (d.take capacity) (m.returned later delay) = _
  unfold afterDatagram
  rw [meaning_take, hmeans]
  exact Action.bind_of_ok hsend

/-! ### Steps in a row -/

/-- The exchange comes from `p` and `n` to `q` and `m`. -/
inductive Reaches (key : Key) (nonce : Bytes) (deadline : Int) (p : Progress) (n : Network) :
    Progress → Network → Prop
  | refl : Reaches key nonce deadline p n p n
  | step {q q' : Progress} {m m' : Network} (h : Reaches key nonce deadline p n q m)
      (hopen : q.isDone = false) (htime : m.now < deadline)
      (hstep : step key nonce q m = (.ok q', m')) : Reaches key nonce deadline p n q' m'

section Exchange

variable {key : Key} {nonce : Bytes} {deadline : Int} {p q q' : Progress} {n m m' : Network}

theorem exchange_of_done (h : q.isDone = true) :
    exchange key nonce deadline q m = (.ok (), m) := by
  rw [exchange, if_pos h]

theorem exchange_of_step (hopen : q.isDone = false) (htime : m.now < deadline)
    (hstep : step key nonce q m = (.ok q', m')) :
    exchange key nonce deadline q m = exchange key nonce deadline q' m' := by
  rw [exchange, if_neg (by rw [hopen]; exact Bool.noConfusion), dif_neg (by omega)]
  split
  · rename_i e k hs
    rw [hstep] at hs
    cases hs
  · rename_i r k hs
    rw [hstep] at hs
    cases hs
    rfl

/-- The exchange goes on from where it has come to. -/
theorem exchange_of_reaches (h : Reaches key nonce deadline p n q m) :
    exchange key nonce deadline p n = exchange key nonce deadline q m := by
  induction h with
  | refl => rfl
  | step _ hopen htime hstep ih =>
      rw [ih]
      exact exchange_of_step hopen htime hstep

/-- An exchange that succeeds has come to a side that is done. -/
theorem reaches_done_of_ok (h : Reaches key nonce deadline p n q m)
    (hok : (exchange key nonce deadline q m).1 = .ok ()) :
    ∃ r k, Reaches key nonce deadline p n r k ∧ r.isDone = true := by
  induction q, m using exchange.induct key nonce deadline with
  | case1 q m hdone => exact ⟨q, m, h, hdone⟩
  | case2 q m hopen hlate =>
      rw [exchange, if_neg hopen, dif_pos hlate] at hok
      cases hok
  | case3 q m hopen htime e k hstep =>
      rw [exchange, if_neg hopen, dif_neg htime] at hok
      split at hok
      · cases hok
      · rename_i hs
        rw [hstep] at hs
        cases hs
  | case4 q m hopen htime r k hstep ih =>
      have hopen' : q.isDone = false := by simpa using hopen
      have htime' : m.now < deadline := by omega
      rw [exchange_of_step hopen' htime' hstep] at hok
      exact ih (h.step hopen' htime' hstep) hok

end Exchange

end Framecast.Authentication
