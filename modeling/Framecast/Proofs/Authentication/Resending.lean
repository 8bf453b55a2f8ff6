/-
When a challenge is sent again.

The challenge is sent once and then at the prompts of the script: a read that timed out, or
one that was refused because the peer is not there yet.  A datagram is never a prompt, whatever
it says, and a side that is verified has none left.  So a stray datagram cannot bring the next
challenge forward, but a refusal does if it comes before the read timeout is over.

What sends, receives and draws leave alone, the whole handshake leaves alone.
-/
import Framecast.Proofs.Authentication.Steps
import Framecast.Proofs.Network.Waits

namespace Framecast.Authentication

open Network (times stand Prompted After ScriptDriven prompted_of_times_eq)

/-! ### What the handshake leaves alone -/

section Leaves

variable {γ : Type} {view : Network → γ}

/-- Receives, draws and sends leave the view alone; an empty datagram, which the handshake never
sends, need not. -/
structure Steady (view : Network → γ) : Prop where
  send : ∀ n d, d ≠ [] → view (n.send d).2 = view n
  receive : ∀ n timeout size, view (n.receive timeout size).2 = view n
  draw : ∀ n size, view (n.draw size).2 = view n

theorem leaves_afterError {nonce : Bytes} (hsend : ∀ n, view (n.send (challenge nonce)).2 = view n)
    (p : Progress) (errno : Errno) : (afterError nonce p errno).Leaves view := by
  unfold afterError
  split
  · split
    · exact fun _ => rfl
    · exact (Action.leaves_ofCall hsend).bind fun _ _ => rfl
  · split <;> exact fun _ => rfl

theorem leaves_afterDatagram {key : Key}
    (hsend : ∀ n theirs, view (n.send (proof key theirs)).2 = view n) (nonce : Bytes)
    (p : Progress) (d : Bytes) : (afterDatagram key nonce p d).Leaves view := by
  unfold afterDatagram
  split
  · exact (Action.leaves_ofCall fun n => hsend n _).bind fun _ _ => rfl
  · split <;> exact fun _ => rfl
  · exact fun _ => rfl

theorem Steady.step (h : Steady view) (key : Key) (nonce : Bytes) (p : Progress) :
    (step key nonce p).Leaves view := by
  intro n
  rw [← h.receive n resendInterval capacity]
  unfold Authentication.step
  cases n.receive resendInterval capacity with
  | mk outcome m =>
    cases outcome with
    | error errno => exact leaves_afterError (fun n => h.send n _ (List.cons_ne_nil _ _)) p errno m
    | ok arrival =>
      exact leaves_afterDatagram (fun n _ => h.send n _ (List.cons_ne_nil _ _)) nonce p arrival.1 m

/-- An exchange, by induction over its steps. -/
theorem Steady.exchange (h : Steady view) (key : Key) (nonce : Bytes) (deadline : Int)
    (p : Progress) : Action.Leaves (exchange key nonce deadline p) view := by
  intro n
  fun_induction Authentication.exchange key nonce deadline p n with
  | case1 p n hdone => rfl
  | case2 p n hopen htime => rfl
  | case3 p n hopen htime e m hstep =>
    have hleaves := h.step key nonce p n
    rwa [hstep] at hleaves
  | case4 p n hopen htime q m hstep ih =>
    have hleaves := h.step key nonce p n
    rw [hstep] at hleaves
    exact ih.trans hleaves

theorem Steady.run (h : Steady view) (key : Key) (timeout : Nat) : (run key timeout).Leaves view :=
  (Action.leaves_ofCheck _ _).bind fun _ =>
    (Action.leaves_drawBytes fun n => h.draw n _).bind fun nonce =>
      (Action.leaves_ofCall fun n => h.send n _ (List.cons_ne_nil _ _)).bind fun _ =>
        (Action.leaves_read _ _).bind fun deadline => h.exchange key nonce deadline {}

end Leaves

/-! ### Prompts -/

/-- Whether the effect sends a challenge. -/
def sendsChallenge : Effect → Bool
  | .sent d => d.head? = some challengeTag
  | _ => false

/-- Whether a side that is not verified sends its challenge again after the event. -/
def prompts (e : Event) : Bool :=
  match e.arrival with
  | .silence => true
  | .failure errno => errno.isTimeout || errno = .connectionRefused
  | .datagram _ _ => false

variable {key : Key} {nonce : Bytes} {p q : Progress} {n m : Network}

theorem prompts_of_error {e : Event} {errno : Errno} (h : e.outcome capacity = .error errno) :
    prompts e = true ↔ errno.isTimeout ∨ errno = .connectionRefused := by
  unfold Event.outcome at h
  unfold prompts
  split at h <;> cases h <;> simp_all [Errno.isTimeout]

theorem prompts_of_ok {e : Event} {r : Bytes × Endpoint} (h : e.outcome capacity = .ok r) :
    prompts e = false := by
  unfold Event.outcome at h
  unfold prompts
  split at h <;> cases h
  simp_all

theorem sendsChallenge_challenge (nonce : Bytes) :
    sendsChallenge (.sent (challenge nonce)) = true := by
  simp [sendsChallenge, challenge]

theorem sendsChallenge_proof (key : Key) (theirs : Bytes) :
    sendsChallenge (.sent (proof key theirs)) = false := by
  simp [sendsChallenge, proof, proofTag, challengeTag]

theorem sendsChallenge_refused (errno : Errno) : sendsChallenge (.refused errno) = false := rfl

theorem leaves_times_afterDatagram (key : Key) (nonce : Bytes) (p : Progress) (d : Bytes) :
    (afterDatagram key nonce p d).Leaves (times sendsChallenge) :=
  leaves_afterDatagram (fun n theirs => n.times_attempt_of_not sendsChallenge_refused
    (sendsChallenge_proof key theirs)) nonce p d

/-- What the clock and the script have come to after a step. -/
theorem after_step (key : Key) (nonce : Bytes) (p : Progress) (n : Network) :
    After resendInterval n (step key nonce p n).2 := by
  have hsend (n : Network) (d : Bytes) :
      ((n.send d).2.now, (n.send d).2.inbound) = (n.now, n.inbound) :=
    Prod.ext (n.now_attempt _) (n.inbound_attempt _)
  have h : ((step key nonce p n).2.now, (step key nonce p n).2.inbound) =
      (n.now + (n.next.span resendInterval : Int), n.inbound.tail) := by
    unfold step
    rw [n.receive_eq]
    have herror (errno : Errno) :
        (afterError nonce p errno).Leaves fun n => (n.now, n.inbound) :=
      leaves_afterError (fun n => hsend n _) p errno
    have hdatagram (d : Bytes) :
        (afterDatagram key nonce p d).Leaves fun n => (n.now, n.inbound) :=
      leaves_afterDatagram (fun n _ => hsend n _) nonce p d
    cases n.next.outcome capacity with
    | error errno => exact herror errno _
    | ok arrival => exact hdatagram arrival.1 _
  exact ⟨congrArg Prod.fst h, congrArg Prod.snd h⟩

/-- Without a prompt, and once verified, no challenge is sent. -/
theorem times_step (key : Key) (nonce : Bytes)
    (hquiet : p.verified = true ∨ prompts n.next = false) :
    (step key nonce p n).2.times sendsChallenge = n.times sendsChallenge := by
  have hreceived : (n.returned n.inbound.tail (n.next.span resendInterval)).times sendsChallenge =
    n.times sendsChallenge := rfl
  rw [← hreceived]
  unfold step
  rw [n.receive_eq]
  cases hnext : n.next.outcome capacity with
  | ok arrival => exact leaves_times_afterDatagram key nonce p arrival.1 _
  | error errno =>
    have hprompts := prompts_of_error hnext
    dsimp only [afterError]
    split
    · rename_i hlapse
      rw [if_pos (hquiet.resolve_right (by rw [hprompts.mpr hlapse]; exact Bool.noConfusion))]
      rfl
    · split <;> rfl

theorem verified_step (hverified : p.verified = true) (h : step key nonce p n = (.ok q, m)) :
    q.verified = true := by
  obtain ⟨out, htakes, -⟩ := step_takes key nonce p n
  rw [h] at htakes
  cases htakes with
  | waits | again | answers | ignores => exact hverified
  | verifies => rfl

/-- After a prompt, a side that is not verified sends its challenge or fails to. -/
theorem step_of_prompt (key : Key) (nonce : Bytes) (hopen : p.verified = false)
    (hprompts : prompts n.next = true) :
    (∃ k, step key nonce p n = (.ok p, k) ∧
        k.times sendsChallenge = n.times sendsChallenge ++ [k.now]) ∨
      ∃ e k, step key nonce p n = (.error e, k) ∧
        k.times sendsChallenge = n.times sendsChallenge := by
  obtain ⟨k, hk⟩ : ∃ k, k = n.returned n.inbound.tail (n.next.span resendInterval) := ⟨_, rfl⟩
  have htimes : k.times sendsChallenge = n.times sendsChallenge := by rw [hk]; rfl
  cases hnext : n.next.outcome capacity with
  | ok arrival =>
    rw [prompts_of_ok hnext] at hprompts
    cases hprompts
  | error errno =>
    have hstep : step key nonce p n =
        (Action.ofCall (·.send (challenge nonce)) >>= fun _ => pure p) k := by
      unfold step
      rw [n.receive_eq, hnext, ← hk]
      dsimp only [afterError]
      rw [if_pos ((prompts_of_error hnext).mp hprompts), if_neg (by rw [hopen]; decide)]
    rw [hstep]
    cases hsend : k.send (challenge nonce) with
    | mk r l =>
      cases r with
      | error why =>
        refine Or.inr ⟨.system why, l, Action.bind_of_error ?_, ?_⟩
        · exact Action.ofCall_of_error hsend
        · rw [Network.times_attempt_of_error sendsChallenge_refused hsend, htimes]
      | ok u =>
        refine Or.inl ⟨l, Action.bind_of_ok (a := ()) ?_, ?_⟩
        · exact Action.ofCall_of_ok hsend
        · have hnow : l.now = k.now := by
            have := k.now_attempt (.sent (challenge nonce))
            rwa [show k.attempt (.sent (challenge nonce)) = (.ok (), l) from hsend] at this
          rw [Network.times_attempt_of_ok hsend, sendsChallenge_challenge, htimes, hnow]
          rfl

/-! ### The exchange -/

theorem times_exchange_of_verified (key : Key) (nonce : Bytes) (deadline : Int)
    (hverified : p.verified = true) (n : Network) :
    (exchange key nonce deadline p n).2.times sendsChallenge = n.times sendsChallenge := by
  fun_induction exchange key nonce deadline p n with
  | case1 p n hdone => rfl
  | case2 p n hopen htime => rfl
  | case3 p n hopen htime e m hstep =>
    have htimes := times_step (n := n) key nonce (Or.inl hverified)
    rwa [hstep] at htimes
  | case4 p n hopen htime q m hstep ih =>
    have htimes := times_step (n := n) key nonce (Or.inl hverified)
    rw [hstep] at htimes
    rw [ih (verified_step hverified hstep), htimes]

/-- **An exchange sends the challenge again at its prompts, until it is verified.**  By
induction over the steps. -/
theorem prompted_exchange (key : Key) (nonce : Bytes) (deadline : Int) (p : Progress)
    (n : Network) :
    Prompted resendInterval prompts sendsChallenge n (exchange key nonce deadline p n).2 := by
  fun_induction exchange key nonce deadline p n with
  | case1 p n hdone => exact prompted_of_times_eq rfl
  | case2 p n hopen htime => exact prompted_of_times_eq rfl
  | case3 p n hopen htime e m hstep =>
    refine prompted_of_times_eq ?_
    by_cases hquiet : p.verified = true ∨ prompts n.next = false
    · have htimes := times_step key nonce hquiet
      rwa [hstep] at htimes
    · rw [not_or, Bool.not_eq_true, Bool.not_eq_false] at hquiet
      rcases step_of_prompt key nonce hquiet.1 hquiet.2 with
        ⟨k, hsent, -⟩ | ⟨e', k, hfail, htimes⟩
      · rw [hstep] at hsent
        cases hsent
      · rw [hstep] at hfail
        cases hfail
        exact htimes
  | case4 p n hopen htime q m hstep ih =>
    have hafter := after_step key nonce p n
    rw [hstep] at hafter
    by_cases hverified : p.verified = true
    · -- A verified side stays so, and is through with challenges.
      refine prompted_of_times_eq ?_
      have htimes := times_step (n := n) key nonce (Or.inl hverified)
      rw [hstep] at htimes
      rw [times_exchange_of_verified key nonce deadline (verified_step hverified hstep), htimes]
    · cases hprompts : prompts n.next with
      | false =>
        have htimes := times_step (p := p) key nonce (Or.inr hprompts)
        rw [hstep] at htimes
        exact ih.pass rfl hprompts hafter htimes
      | true =>
        rw [Bool.not_eq_true] at hverified
        rcases step_of_prompt key nonce hverified hprompts with
          ⟨k, hsent, htimes⟩ | ⟨e', k, hfail, -⟩
        · rw [hstep] at hsent
          cases hsent
          exact ih.again rfl hprompts hafter htimes
        · rw [hstep] at hfail
          cases hfail

/-- A challenge, and the exchange after it. -/
theorem scriptDriven_of_challenge (key : Key) (nonce : Bytes) (timeout : Nat) :
    ScriptDriven resendInterval prompts sendsChallenge
      (Action.ofCall (·.send (challenge nonce)) >>= fun _ =>
        .read (fun n => n.now + (timeout : Int)) >>= fun deadline =>
          exchange key nonce deadline {}) := by
  intro n
  have hnow := n.now_attempt (.sent (challenge nonce))
  have hinbound := n.inbound_attempt (.sent (challenge nonce))
  rw [Action.bind_apply]
  unfold Action.ofCall
  dsimp only [Network.send]
  cases hsend : n.attempt (.sent (challenge nonce)) with
  | mk r m =>
    rw [hsend] at hnow hinbound
    cases r with
    | error errno =>
      exact Network.followsScript_of_times_eq
        (Network.times_attempt_of_error sendsChallenge_refused hsend)
    | ok u =>
      refine Network.followsScript_of_prompted hnow hinbound ?_
        (prompted_exchange key nonce (m.now + (timeout : Int)) {} m)
      rw [Network.times_attempt_of_ok hsend, sendsChallenge_challenge]
      rfl

/-- **The challenges of a handshake follow its script.** -/
theorem scriptDriven_run (key : Key) (timeout : Nat) :
    ScriptDriven resendInterval prompts sendsChallenge (run key timeout) := by
  have hdraw (n : Network) :
      stand sendsChallenge (n.draw nonceSize).2 = stand sendsChallenge n := by
    unfold Network.draw
    cases n.random.draw? nonceSize <;> rfl
  exact .after (Action.leaves_ofCheck _ _) fun _ =>
    .after (Action.leaves_drawBytes hdraw) fun nonce => scriptDriven_of_challenge key nonce timeout

end Framecast.Authentication
