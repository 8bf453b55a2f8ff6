/-
What a handshake makes of its own datagrams.

Suppose every datagram a side receives is a copy of one that it sent itself, earlier in
the same run.  It has sent nothing but its challenge then, until that comes back to it:
it takes the copy for a challenge of the peer and answers it, and its answer proves its
own nonce.  So all it ever sends is its challenge and the proof of it, and the handshake
succeeds exactly if that proof comes back as well.  The peer need not hold the key.

`Mirrored` is the invariant of the steps.
-/
import Framecast.Proofs.Authentication.Steps

namespace Framecast.Authentication

/-! ### The opening of a run -/

/-- What a run does before it reads: it draws its nonce and sends the challenge. -/
def opening : Action Network Bytes := do
  .ofCheck Network.setReadTimeout
  let nonce ← Network.drawBytes nonceSize
  .ofCall (·.send (challenge nonce))
  pure nonce

/-- A run is its opening and an exchange. -/
theorem run_of_opening {key : Key} {timeout : Nat} {n k : Network} {nonce : Bytes}
    (h : opening n = (.ok nonce, k)) :
    run key timeout n = exchange key nonce (k.now + (timeout : Int)) {} k := by
  obtain ⟨u, k1, hcheck, h⟩ := Action.bind_eq_ok h
  obtain ⟨drawn, k2, hdraw, h⟩ := Action.bind_eq_ok h
  obtain ⟨u', k3, hsend, h⟩ := Action.bind_eq_ok h
  cases h
  unfold run
  rw [Action.bind_of_ok hcheck, Action.bind_of_ok hdraw, Action.bind_of_ok hsend]
  rfl

/-- A run whose opening fails does not succeed. -/
theorem opening_of_run_ok {key : Key} {timeout : Nat} {n : Network}
    (h : (run key timeout n).1 = .ok ()) : ∃ nonce k, opening n = (.ok nonce, k) := by
  have hrun : run key timeout n = (.ok (), (run key timeout n).2) := Prod.ext h rfl
  unfold run at hrun
  obtain ⟨u, k1, hcheck, hrun⟩ := Action.bind_eq_ok hrun
  obtain ⟨nonce, k2, hdraw, hrun⟩ := Action.bind_eq_ok hrun
  obtain ⟨u', k3, hsend, -⟩ := Action.bind_eq_ok hrun
  refine ⟨nonce, k3, ?_⟩
  unfold opening
  rw [Action.bind_of_ok hcheck, Action.bind_of_ok hdraw, Action.bind_of_ok hsend]
  rfl

theorem trace_of_opening {n k : Network} {nonce : Bytes} (h : opening n = (.ok nonce, k)) :
    k.trace = n.trace.push (n.now, .sent (challenge nonce)) := by
  obtain ⟨u, k1, hcheck, h⟩ := Action.bind_eq_ok h
  obtain ⟨drawn, k2, hdraw, h⟩ := Action.bind_eq_ok h
  obtain ⟨u', k3, hsend, h⟩ := Action.bind_eq_ok h
  cases h
  have hfirst : k1 = n := (congrArg Prod.snd hcheck).symm.trans (Action.ofCall_snd _ n)
  have hsecond : k2.trace = k1.trace ∧ k2.now = k1.now := by
    unfold Network.drawBytes Network.draw at hdraw
    cases hbytes : k1.random.draw? nonceSize with
    | none =>
        rw [hbytes] at hdraw
        cases hdraw
    | some r =>
        rw [hbytes] at hdraw
        cases hdraw
        exact ⟨rfl, rfl⟩
  obtain ⟨htrace, -, -⟩ := send_eq_ok hsend
  rw [htrace, hsecond.1, hsecond.2, hfirst]

/-! ### What is sent and what is received -/

/-- The run receives a datagram in the state `m`: it is not done, its time is not over,
and the datagram is what comes next. -/
def Receives (key : Key) (timeout : Nat) (n m : Network) (d : Bytes) : Prop :=
  ∃ nonce k q, opening n = (.ok nonce, k) ∧
    Reaches key nonce (k.now + (timeout : Int)) {} k q m ∧ q.isDone = false ∧
    m.now < k.now + (timeout : Int) ∧ Arrives m d

/-- Every datagram the run receives is a copy of one that it sent before. -/
def Reflected (key : Key) (timeout : Nat) (n : Network) : Prop :=
  ∀ m d, Receives key timeout n m d → d ∈ sentSince n m

/-! ### The invariant -/

/-- All that was sent is the challenge, and its proof if a challenge was answered. -/
structure Mirrored (key : Key) (nonce : Bytes) (n : Network) (q : Progress) (m : Network) :
    Prop where
  grows : n.trace.toList <+: m.trace.toList
  sent : ∀ d ∈ sentSince n m,
    d = challenge nonce ∨ (d = proof key nonce ∧ q.answered = true)

section Mirror

variable {key : Key} {nonce : Bytes} {n m m' : Network} {q q' : Progress}

theorem mirrored_opening {k : Network} (h : opening n = (.ok nonce, k)) :
    Mirrored key nonce n {} k := by
  have hsends := Network.sends_of_sent (trace_of_opening h)
  refine ⟨hsends.grows, fun d hd => ?_⟩
  rw [hsends.sent, List.mem_singleton] at hd
  exact Or.inl hd

/-- **One step.**  What is answered is the side's own challenge. -/
theorem Mirrored.step (h : Mirrored key nonce n q m)
    (hreflected : ∀ d, Arrives m d → d ∈ sentSince n m)
    (hstep : step key nonce q m = (.ok q', m')) : Mirrored key nonce n q' m' := by
  obtain ⟨out, htakes, hsends, -⟩ := step_takes key nonce q m
  rw [hstep] at htakes hsends
  suffices hnext : (q.answered = true → q'.answered = true) ∧
      ∀ d ∈ out, d = challenge nonce ∨ (d = proof key nonce ∧ q'.answered = true) by
    refine ⟨h.grows.trans hsends.grows, fun d hd => ?_⟩
    rw [Network.sentSince_trans h.grows hsends.grows, hsends.sent, List.mem_append] at hd
    rcases hd with hold | hnew
    · exact (h.sent d hold).imp id fun ⟨heq, hanswered⟩ => ⟨heq, hnext.1 hanswered⟩
    · exact hnext.2 d hnew
  cases htakes with
  | waits | verifies | ignores => exact ⟨id, nofun⟩
  | again => exact ⟨id, fun d hd => Or.inl (List.mem_singleton.mp hd)⟩
  | @answers theirs hbrings hlength =>
      refine ⟨fun _ => rfl, fun d hd => Or.inr ⟨?_, rfl⟩⟩
      -- It was sent by this side, and no proof has the shape of a challenge.
      have hown : theirs = nonce := by
        rcases h.sent _ (hreflected _ (arrives_iff.mpr hbrings)) with heq | ⟨heq, -⟩
        · exact List.tail_eq_of_cons_eq heq
        · exact absurd (List.head_eq_of_cons_eq heq) (by decide)
      rw [← hown]
      exact List.mem_singleton.mp hd

/-- **Many steps.** -/
theorem mirrored_of_reaches {timeout : Nat} {k : Network} (hreflected : Reflected key timeout n)
    (hopening : opening n = (.ok nonce, k))
    (h : Reaches key nonce (k.now + (timeout : Int)) {} k q m) : Mirrored key nonce n q m := by
  induction h with
  | refl => exact mirrored_opening hopening
  | step hprev hopen htime hstep ih =>
      refine ih.step (fun d hd => hreflected _ d ?_) hstep
      exact ⟨nonce, k, _, hopening, hprev, hopen, htime, hd⟩

/-- A side that is verified has received a proof. -/
theorem received_of_verified {deadline : Int} {k : Network}
    (h : Reaches key nonce deadline {} k q m) (hverified : q.verified = true) :
    ∃ r l d, Reaches key nonce deadline {} k r l ∧ r.isDone = false ∧ l.now < deadline ∧
      Arrives l d ∧ meaning d = .proof (code key nonce) := by
  induction h with
  | refl => cases hverified
  | @step r r' l l' hprev hopen htime hstep ih =>
      obtain ⟨out, htakes, -⟩ := step_takes key nonce r l
      rw [hstep] at htakes
      cases htakes with
      | waits | again | answers | ignores => exact ih hverified
      | verifies hbrings =>
          exact ⟨r, l, _, hprev, hopen, htime, arrives_iff.mpr hbrings,
            meaning_eq_proof.mpr ⟨rfl, length_code key nonce⟩⟩

end Mirror

/--
**A side that hears nothing but itself succeeds exactly if it hears a proof.**  If every
datagram that a run receives is a copy of one that it sent before, then the run succeeds
exactly if one of them is a proof.
-/
theorem run_ok_iff_of_reflected {key : Key} {timeout : Nat} {n : Network}
    (h : Reflected key timeout n) :
    (run key timeout n).1 = .ok () ↔
      ∃ m d given, Receives key timeout n m d ∧ meaning d = .proof given := by
  constructor
  · intro hok
    obtain ⟨nonce, k, hopening⟩ := opening_of_run_ok hok
    rw [run_of_opening hopening] at hok
    obtain ⟨q, m, hreaches, hdone⟩ := reaches_done_of_ok .refl hok
    have hverified : q.verified = true := by
      rw [Progress.isDone, Bool.and_eq_true] at hdone
      exact hdone.2
    obtain ⟨r, l, d, hprev, hopen, htime, harrives, hmeans⟩ :=
      received_of_verified hreaches hverified
    exact ⟨l, d, _, ⟨nonce, k, r, hopening, hprev, hopen, htime, harrives⟩, hmeans⟩
  · rintro ⟨m, d, given, hreceives, hmeans⟩
    have hsent := h m d hreceives
    obtain ⟨nonce, k, q, hopening, hreaches, hopen, htime, harrives⟩ := hreceives
    have hmirrored := mirrored_of_reaches h hopening hreaches
    have hshape := (meaning_eq_proof.mp hmeans).1
    rcases hmirrored.sent d hsent with heq | ⟨heq, hanswered⟩
    · rw [hshape] at heq
      exact absurd (List.head_eq_of_cons_eq heq) (by decide)
    · have hgiven : given = code key nonce := by
        rw [hshape] at heq
        exact List.tail_eq_of_cons_eq heq
      rw [hgiven] at hmeans
      obtain ⟨m', hstep⟩ := step_of_proof q harrives hmeans
      have hdone : ({ q with verified := true } : Progress).isDone = true := by
        rw [Progress.isDone, hanswered]
        rfl
      rw [run_of_opening hopening, exchange_of_reaches hreaches,
        exchange_of_step hopen htime hstep, exchange_of_done hdone]

/-! ### A mirror -/

theorem opening_of_draw {n : Network} {nonce : Bytes} {random : RandomSource}
    (hset : n.faults.setReadTimeout = none)
    (hdraw : n.random.draw? nonceSize = some (nonce, random)) (hout : n.outbound = []) :
    opening n = (.ok nonce, { n with random }.note (.sent (challenge nonce))) := by
  have hcheck : Action.ofCheck Network.setReadTimeout n = (.ok (), n) := by
    refine Action.ofCheck_of_ok ?_
    rw [Network.setReadTimeout, hset]
    rfl
  have hdrawn : Network.drawBytes nonceSize n = (.ok nonce, { n with random }) := by
    unfold Network.drawBytes Network.draw
    rw [hdraw]
  have hsend : Action.ofCall (·.send (challenge nonce)) { n with random } =
      (.ok (), { n with random }.note (.sent (challenge nonce))) := by
    refine Action.ofCall_of_ok ?_
    rw [Network.send, Network.attempt, hout]
  unfold opening
  rw [Action.bind_of_ok hcheck, Action.bind_of_ok hdrawn, Action.bind_of_ok hsend]
  rfl

/-- The nonce that the default source of random bytes gives. -/
def firstNonce : Bytes :=
  (List.range nonceSize).map fun i => (default : RandomSource).byte (0 + i)

/-- A peer without the key: it gives back the challenge, and then the answer. -/
def mirror (key : Key) : Network :=
  { inbound :=
      [⟨.datagram (challenge firstNonce) (.v4 .unspecified 9000), 0⟩,
       ⟨.datagram (proof key firstNonce) (.v4 .unspecified 9000), 0⟩] }

section Mirror

variable {key : Key} {timeout : Nat}

/-- The mirror after the opening. -/
def opened (key : Key) : Network :=
  { mirror key with random := { (default : RandomSource) with drawn := nonceSize } }.note
    (.sent (challenge firstNonce))

/-- The mirror after the side has answered. -/
def answered (key : Key) : Network :=
  ((opened key).returned
    [⟨.datagram (proof key firstNonce) (.v4 .unspecified 9000), 0⟩] 0).note
      (.sent (proof key firstNonce))

theorem opening_mirror (key : Key) : opening (mirror key) = (.ok firstNonce, opened key) :=
  opening_of_draw rfl rfl rfl

theorem step_opened (key : Key) :
    step key firstNonce {} (opened key) = (.ok { answered := true }, answered key) :=
  step_of_challenge {} rfl (meaning_eq_challenge.mpr ⟨rfl, rfl⟩) rfl

theorem step_answered (key : Key) :
    ∃ m, step key firstNonce { answered := true } (answered key) =
      (.ok { answered := true, verified := true }, m) := by
  have hmeans : meaning (proof key firstNonce) = .proof (code key firstNonce) :=
    meaning_eq_proof.mpr ⟨rfl, length_code key firstNonce⟩
  exact step_of_proof { answered := true } ⟨_, _, _, rfl⟩ hmeans

/-- A run before a mirror is in one of two states while it is not done. -/
theorem reaches_mirror {deadline : Int} {q : Progress} {m : Network}
    (h : Reaches key firstNonce deadline {} (opened key) q m) :
    (q = {} ∧ m = opened key) ∨ (q = { answered := true } ∧ m = answered key) ∨
      q.isDone = true := by
  induction h with
  | refl => exact Or.inl ⟨rfl, rfl⟩
  | step _ hopen _ hstep ih =>
      rcases ih with ⟨rfl, rfl⟩ | ⟨rfl, rfl⟩ | hdone
      · rw [step_opened] at hstep
        cases hstep
        exact Or.inr (Or.inl ⟨rfl, rfl⟩)
      · obtain ⟨l, hlast⟩ := step_answered key
        rw [hlast] at hstep
        cases hstep
        exact Or.inr (Or.inr rfl)
      · rw [hdone] at hopen
        exact Bool.noConfusion hopen

/-- A mirror gives back only what was sent. -/
theorem reflected_mirror (key : Key) (timeout : Nat) : Reflected key timeout (mirror key) := by
  rintro m d ⟨nonce, k, q, hopening, hreaches, hopen, -, sender, delay, later, hin⟩
  rw [opening_mirror] at hopening
  cases hopening
  rcases reaches_mirror hreaches with ⟨-, rfl⟩ | ⟨-, rfl⟩ | hdone
  · cases hin
    exact List.mem_cons_self ..
  · cases hin
    exact List.mem_cons_of_mem _ (List.mem_cons_self ..)
  · rw [hdone] at hopen
    exact Bool.noConfusion hopen

theorem run_mirror_ok (key : Key) {timeout : Nat} (htimeout : 0 < timeout) :
    (run key timeout (mirror key)).1 = .ok () := by
  obtain ⟨m, hlast⟩ := step_answered key
  have hnow : (opened key).now < (opened key).now + (timeout : Int) := by omega
  have hlater : (answered key).now < (opened key).now + (timeout : Int) := hnow
  rw [run_of_opening (opening_mirror key), exchange_of_step rfl hnow (step_opened key),
    exchange_of_step rfl hlater hlast, exchange_of_done rfl]

end Mirror

/-- **A peer without the key passes the handshake:** every datagram is a copy of one that
was sent before, and the run succeeds. -/
theorem run_ok_of_mirror :
    Reflected (Key.constant 7) (100 * Time.millisecond) (mirror (Key.constant 7)) ∧
      (run (Key.constant 7) (100 * Time.millisecond) (mirror (Key.constant 7))).1 = .ok () :=
  ⟨reflected_mirror _ _, run_mirror_ok _ (by decide)⟩

/-- The run before a mirror succeeds, and so a proof came back. -/
theorem mirror_gives_back_proof :
    ∃ m d given, Receives (Key.constant 7) (100 * Time.millisecond) (mirror (Key.constant 7)) m d ∧
      meaning d = .proof given :=
  (run_ok_iff_of_reflected (reflected_mirror _ _)).mp (run_mirror_ok _ (by decide))

end Framecast.Authentication
