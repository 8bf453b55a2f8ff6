/-
Noise means nothing to a handshake.

A datagram that is neither a challenge nor a proof and comes at once is passed over: the side is
as far as before, the clock stands still and nothing is sent.  So a handshake ends alike on two
networks of which one is the other without some of its noise.  `Tidies` says that a network is
another without any, and `Respects` that an action ends alike on both and leaves them so.

Together with what an exchange makes of the other datagrams this is all that one side does.
-/
import Framecast.Proofs.Authentication.Answers

namespace Framecast

namespace Action

variable {σ α β : Type} {R : σ → σ → Prop} {x : Action σ α} {f : α → Action σ β}

/-- On states that are related, the action has the same result and leaves them related. -/
def Respects (R : σ → σ → Prop) (x : Action σ α) : Prop :=
  ∀ s t, R s t → (x t).1 = (x s).1 ∧ R (x s).2 (x t).2

theorem respects_pure (a : α) : Respects R (pure a : Action σ α) := fun _ _ h => ⟨rfl, h⟩

theorem respects_fail (e : Failure) : Respects R (fail e : Action σ α) := fun _ _ h => ⟨rfl, h⟩

theorem respects_ofCall {call : σ → Except Errno α × σ}
    (h : ∀ s t, R s t → (call t).1 = (call s).1 ∧ R (call s).2 (call t).2) :
    Respects R (ofCall call) := by
  intro s t hst
  obtain ⟨hresult, hrelated⟩ := h s t hst
  unfold ofCall
  cases hs : call s with
  | mk r s' =>
    cases ht : call t with
    | mk r' t' =>
      rw [hs, ht] at hresult hrelated
      cases hresult
      cases r <;> exact ⟨rfl, hrelated⟩

theorem Respects.bind (hx : Respects R x) (hf : ∀ a, Respects R (f a)) : Respects R (x >>= f) := by
  intro s t hst
  obtain ⟨hresult, hrelated⟩ := hx s t hst
  rw [bind_apply, bind_apply]
  cases hs : x s with
  | mk r s' =>
    cases ht : x t with
    | mk r' t' =>
      rw [hs, ht] at hresult hrelated
      cases hresult
      cases r with
      | error e => exact ⟨rfl, hrelated⟩
      | ok a => exact hf a s' t' hrelated

end Action

/-- The event brings at once a datagram that is neither a challenge nor a proof. -/
def Event.isNoise (e : Event) : Bool :=
  e.delay = 0 && e.datagram?.any fun d =>
    ¬ Authentication.IsChallenge d ∧ ¬ Authentication.IsProof d

/-- The events of a script that are no noise. -/
def tidy (script : List Event) : List Event :=
  script.filter (!Event.isNoise ·)

theorem tidy_cons_of_noise {e : Event} (h : e.isNoise = true) (script : List Event) :
    tidy (e :: script) = tidy script :=
  List.filter_cons_of_neg (by simp [h])

theorem tidy_cons {e : Event} (h : e.isNoise = false) (script : List Event) :
    tidy (e :: script) = e :: tidy script :=
  List.filter_cons_of_pos (by simp [h])

namespace Authentication

open Framecast.Action (Respects respects_pure respects_fail respects_ofCall)

/-- The second network is the first one without the noise to come, whatever was received so
far. -/
def Tidies (n m : Network) : Prop :=
  ∃ calls, m = { n with inbound := tidy n.inbound, receives := calls }

variable {n m : Network}

/-! ### Actions that read nothing -/

theorem respects_send (d : Bytes) : Respects Tidies (.ofCall (·.send d)) := by
  refine respects_ofCall ?_
  rintro ⟨now, inbound, outbound, rest⟩ _ ⟨calls, rfl⟩
  cases outbound with
  | nil => exact ⟨rfl, calls, rfl⟩
  | cons fate later => cases fate <;> exact ⟨rfl, calls, rfl⟩

theorem respects_setReadTimeout : Respects Tidies (.ofCheck Network.setReadTimeout) := by
  refine respects_ofCall ?_
  rintro n _ ⟨calls, rfl⟩
  exact ⟨rfl, calls, rfl⟩

theorem respects_drawBytes (size : Nat) : Respects Tidies (Network.drawBytes size) := by
  rintro n _ ⟨calls, rfl⟩
  unfold Network.drawBytes Network.draw
  dsimp only
  cases n.random.draw? size <;> exact ⟨rfl, calls, rfl⟩

theorem respects_afterError (nonce : Bytes) (p : Progress) (errno : Errno) :
    Respects Tidies (afterError nonce p errno) := by
  unfold afterError
  split
  · split
    · exact respects_pure p
    · exact (respects_send _).bind fun _ => respects_pure p
  · split
    · exact respects_pure p
    · exact respects_fail _

theorem respects_afterDatagram (key : Key) (nonce : Bytes) (p : Progress) (d : Bytes) :
    Respects Tidies (afterDatagram key nonce p d) := by
  unfold afterDatagram
  split
  · exact (respects_send _).bind fun _ => respects_pure _
  · split
    · exact respects_pure _
    · exact respects_fail _
  · exact respects_pure p

theorem respects_react (key : Key) (nonce : Bytes) (p : Progress)
    (outcome : Except Errno (Bytes × Endpoint)) :
    Respects Tidies (react key nonce p outcome) := by
  cases outcome with
  | error errno => exact respects_afterError nonce p errno
  | ok arrival => exact respects_afterDatagram key nonce p arrival.1

/-! ### Reading -/

/-- Noise is passed over, and takes no time. -/
theorem step_of_noise (key : Key) (nonce : Bytes) (p : Progress) {e : Event} {later : List Event}
    (hin : n.inbound = e :: later) (hnoise : e.isNoise = true) :
    step key nonce p n = (.ok p, n.returned later 0) := by
  obtain ⟨arrival, delay⟩ := e
  obtain ⟨hdelay, hshape⟩ := Bool.and_eq_true_iff.mp hnoise
  obtain rfl : delay = 0 := of_decide_eq_true hdelay
  cases arrival with
  | failure errno => cases hshape
  | silence => cases hshape
  | datagram d sender =>
    have hnone : ¬ IsChallenge d ∧ ¬ IsProof d := of_decide_eq_true hshape
    have hmeans := shape_of_meaning d
    have hread : step key nonce p n =
        afterDatagram key nonce p (d.take capacity) (n.returned later 0) := by
      rw [step_eq, Network.next, hin]
      rfl
    rw [hread, afterDatagram, meaning_take]
    cases hmeaning : meaning d with
    | challenge theirs =>
      rw [hmeaning] at hmeans
      exact absurd hmeans.1 hnone.1
    | proof given =>
      rw [hmeaning] at hmeans
      exact absurd hmeans.1 hnone.2
    | noise => rfl

/-- A step reads noise that only the first network has, or it ends alike on both. -/
theorem step_tidies (h : Tidies n m) (key : Key) (nonce : Bytes) (p : Progress) :
    (∃ k, step key nonce p n = (.ok p, k) ∧ Tidies k m) ∨
      ((step key nonce p m).1 = (step key nonce p n).1 ∧
        Tidies (step key nonce p n).2 (step key nonce p m).2) := by
  obtain ⟨calls, rfl⟩ := h
  by_cases hnoise : ∃ e later, n.inbound = e :: later ∧ e.isNoise = true
  · obtain ⟨e, later, hin, hnoise⟩ := hnoise
    refine Or.inl ⟨_, step_of_noise key nonce p hin hnoise, calls, ?_⟩
    rw [hin, tidy_cons_of_noise hnoise]
    simp [Network.returned]
  · right
    -- Both read the same event, and what is to come differs in noise again.
    obtain ⟨hnext, htail⟩ : (tidy n.inbound).headD .quiet = n.inbound.headD .quiet ∧
        (tidy n.inbound).tail = tidy n.inbound.tail := by
      cases hin : n.inbound with
      | nil => exact ⟨rfl, rfl⟩
      | cons e later =>
        have he : e.isNoise = false := by
          rw [← Bool.not_eq_true]
          exact fun h => hnoise ⟨e, later, hin, h⟩
        rw [tidy_cons he]
        exact ⟨rfl, rfl⟩
    rw [step_eq, step_eq, Network.next, Network.next]
    dsimp only
    rw [hnext, htail]
    exact respects_react key nonce p _ _ _ ⟨calls + 1, rfl⟩

/-- **An exchange ends alike with and without noise.**  By induction over its steps. -/
theorem respects_exchange (key : Key) (nonce : Bytes) (deadline : Int) (p : Progress) :
    Respects Tidies (exchange key nonce deadline p) := by
  intro n m h
  have hnow {n m : Network} (h : Tidies n m) : m.now = n.now := by
    obtain ⟨calls, rfl⟩ := h
    rfl
  fun_induction exchange key nonce deadline p n generalizing m with
  | case1 p n hdone =>
    rw [exchange_of_done hdone]
    exact ⟨rfl, h⟩
  | case2 p n hopen htime =>
    rw [exchange_of_late (by simpa using hopen) (by rw [hnow h]; exact htime)]
    exact ⟨rfl, h⟩
  | case3 p n hopen htime e k hstep =>
    have htime' : m.now < deadline := by
      rw [hnow h]
      omega
    have hcases := step_tidies h key nonce p
    rw [hstep] at hcases
    rcases hcases with ⟨k', hpassed, -⟩ | ⟨hresult, htidies⟩
    · cases hpassed
    · have hstep' : step key nonce p m = (.error e, (step key nonce p m).2) :=
        Prod.ext hresult rfl
      rw [exchange_of_step_error (by simpa using hopen) htime' hstep']
      exact ⟨rfl, htidies⟩
  | case4 p n hopen htime q k hstep ih =>
    have htime' : m.now < deadline := by
      rw [hnow h]
      omega
    have hcases := step_tidies h key nonce p
    rw [hstep] at hcases
    rcases hcases with ⟨k', hpassed, htidies⟩ | ⟨hresult, htidies⟩
    · cases hpassed
      exact ih _ htidies
    · have hstep' : step key nonce p m = (.ok q, (step key nonce p m).2) := Prod.ext hresult rfl
      rw [exchange_of_step (by simpa using hopen) htime' hstep']
      exact ih _ htidies

theorem respects_run (key : Key) (timeout : Nat) : Respects Tidies (run key timeout) :=
  respects_setReadTimeout.bind fun _ => (respects_drawBytes _).bind fun _ =>
    (respects_send _).bind fun _ =>
      Respects.bind (fun n _ ⟨calls, h⟩ => ⟨by rw [h]; rfl, calls, h⟩) fun deadline =>
        respects_exchange key _ deadline {}

/-- **Noise changes nothing.**  On scripts that have the same events but for noise, a handshake
has the same result and leaves the same trace. -/
theorem run_hearing (key : Key) (timeout : Nat) {script : List Event}
    (h : tidy script = tidy n.inbound) :
    (run key timeout (n.hearing script)).1 = (run key timeout n).1 ∧
      (run key timeout (n.hearing script)).2.trace = (run key timeout n).2.trace := by
  have htrace {n m : Network} (h : Tidies n m) : m.trace = n.trace := by
    obtain ⟨calls, rfl⟩ := h
    rfl
  obtain ⟨hresult, htidies⟩ :=
    respects_run key timeout n (n.hearing (tidy n.inbound)) ⟨n.receives, rfl⟩
  obtain ⟨hresult', htidies'⟩ :=
    respects_run key timeout (n.hearing script) (n.hearing (tidy n.inbound))
      ⟨n.receives, by rw [← h]; rfl⟩
  exact ⟨hresult'.symm.trans hresult, (htrace htidies').symm.trans (htrace htidies)⟩

/-! ### The whole handshake -/

theorem leaves_opening : opening.Leaves Network.readings :=
  (Action.leaves_ofCheck _ _).bind fun _ =>
    (Action.leaves_drawBytes fun n => by
      unfold Network.draw
      cases n.random.draw? nonceSize <;> rfl).bind fun _ =>
      (Action.leaves_ofCall fun n => n.readings_send _).bind fun _ => Action.leaves_pure _ _

/-- The nonce of an opening is drawn from the random source as it was. -/
theorem draw_of_opening {nonce : Bytes} {k : Network} (h : opening n = (.ok nonce, k)) :
    (n.draw nonceSize).1 = some nonce := by
  obtain ⟨u, k₁, hcheck, h⟩ := Action.bind_eq_ok h
  obtain ⟨drawn, k₂, hdraw, h⟩ := Action.bind_eq_ok h
  obtain ⟨u', k₃, -, h⟩ := Action.bind_eq_ok h
  cases h
  obtain rfl : k₁ = n := (congrArg Prod.snd hcheck).symm.trans (Action.ofCall_snd _ n)
  unfold Network.drawBytes at hdraw
  split at hdraw
  · cases hdraw
  · rename_i hsome
    cases hdraw
    rw [hsome]

/-- **What a handshake makes of what it receives.** -/
theorem run_answered (key : Key) (timeout : Nat) (ha : n.Accepts) :
    Answered key ((n.draw nonceSize).1.getD []) {} n (run key timeout n).1
      (run key timeout n).2 := by
  have hreadings := leaves_opening n
  rcases opening_cases ha with
    ⟨nonce, k, hopening, -, hk, hsends⟩ | ⟨why, k, hopening, hwhy, -, hsends⟩
  · rw [hopening] at hreadings
    obtain ⟨hle, hchallenged, hproved, hrejects, out, hout, hanswers⟩ :=
      exchange_answered key nonce (k.now + (timeout : Int)) {} hk
    rw [draw_of_opening hopening, Option.getD_some, run_of_opening hopening]
    have hreceives : k.receives = n.receives := congrArg Prod.fst hreadings
    have hreceived (m : Network) : k.receivedSince m = n.receivedSince m := by
      have hinbound : k.inbound = n.inbound := congrArg Prod.snd hreadings
      rw [Network.receivedSince, Network.receivedSince, hreceives, hinbound]
    rw [hreceived] at hchallenged hproved hrejects hanswers
    refine ⟨hreceives ▸ hle, hchallenged, hproved, hrejects, _, hsends.trans hout, ?_⟩
    rw [List.filter_append, hanswers]
    simp
  · rw [hopening] at hreadings
    rw [run_of_opening_error hopening]
    exact answered_of_readings_eq hreadings hsends (by simp) (by simpa using hwhy)

/--
**One side of a handshake goes by what it hears.**  Where sends succeed, whatever its script:

* it succeeds only after it received a challenge and the proof of its own nonce;
* apart from its own challenge it sends the proofs of the nonces it received, one for each
  challenge and in their order;
* it fails because of a proof exactly if it received one that is wrong;
* datagrams of other shapes that come at once change neither its result nor what it sends, nor
  when it does.
-/
theorem one_side_goes_by_what_it_hears (key : Key) (timeout : Nat) (n : Network)
    (ha : n.Accepts) :
    let nonce := (n.draw nonceSize).1.getD []
    let result := (run key timeout n).1
    let m := (run key timeout n).2
    let received := n.receivedSince m
    (result = .ok () → (∃ d ∈ received, IsChallenge d) ∧ proof key nonce ∈ received) ∧
      (sentSince n m).filter (· ≠ challenge nonce) =
        (received.filter (IsChallenge ·)).map (fun d => proof key d.tail) ∧
      (result = .error .proofRejected ↔ ∃ d ∈ received, IsProof d ∧ d ≠ proof key nonce) ∧
      Failure.proofRejected.message = "handshake failed: peer proof did not verify" ∧
      ∀ script, tidy script = tidy n.inbound →
        (run key timeout (n.hearing script)).1 = result ∧
          (run key timeout (n.hearing script)).2.trace = m.trace := by
  intro nonce result m received
  obtain ⟨-, hchallenged, hproved, hrejects, out, hout, hanswers⟩ := run_answered key timeout ha
  refine ⟨fun hok => ⟨?_, ?_⟩, ?_, hrejects, rfl, fun script h => run_hearing key timeout h⟩
  · exact (hchallenged hok).resolve_left Bool.false_ne_true
  · exact (hproved hok).resolve_left Bool.false_ne_true
  · rw [← hout.sent] at hanswers
    exact hanswers

/-- A mirror gives both back, also behind an empty datagram. -/
theorem mirror_answers_behind_noise :
    let key := Key.constant 7
    let n := mirror key
    let stray : Event := ⟨.datagram [] (.v4 .unspecified 9000), 0⟩
    let timeout := 100 * Time.millisecond
    n.Accepts ∧ proof key firstNonce ∈ n.receivedSince (run key timeout n).2 ∧
      (run key timeout (n.hearing (stray :: n.inbound))).1 = .ok () := by
  intro key n stray timeout
  have ha : n.Accepts := fun fate hfate => absurd hfate List.not_mem_nil
  have h := one_side_goes_by_what_it_hears key timeout n ha
  have hok : (run key timeout n).1 = .ok () := run_mirror_ok key (by decide)
  have hstray : tidy (stray :: n.inbound) = tidy n.inbound := tidy_cons_of_noise rfl _
  exact ⟨ha, (h.1 hok).2, (h.2.2.2.2 _ hstray).1.trans hok⟩

end Authentication

end Framecast
