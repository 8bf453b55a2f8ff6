/-
How soon a setup ends.

Each loop of a setup receives, and goes on after most of what it receives, without a look at the
clock and without a send.  What ends it is that a script holds only so many arrivals, and that
after them every receive call waits for its whole timeout.  A handshake looks at the clock before
it receives, and comes to its deadline in time.  A rendezvous looks afterwards, which may cost one
more call.  A host that waits for a caller ends with the first silence.

The loops follow each other in a setup, and what one of them leaves of the script is all that the
next one has.  So the calls after the script add up, and the arrivals count once.
-/
import Framecast.Proofs.Connection.Calls
import Framecast.Proofs.Network.Receives
import Framecast.Proofs.Rendezvous.Resending

namespace Framecast

open Network (horizon stage allowance)

/-! ### The handshake -/

namespace Authentication

variable {key : Key} {nonce : Bytes} {p : Progress} {n : Network} {deadline : Int}

/-- What follows the receive call of a step takes no time and receives nothing. -/
theorem stage_step (key : Key) (nonce : Bytes) (p : Progress) (n : Network) :
    (step key nonce p n).2.stage = (n.receive resendInterval capacity).2.stage := by
  have hsend (n : Network) (d : Bytes) : (n.send d).2.stage = n.stage := n.stage_attempt _
  unfold step
  cases n.receive resendInterval capacity with
  | mk outcome m =>
    cases outcome with
    | error errno => exact leaves_afterError (fun n => hsend n _) p errno m
    | ok arrival => exact leaves_afterDatagram (fun n _ => hsend n _) nonce p arrival.1 m

theorem allowance_step_le (key : Key) (nonce : Bytes) (p : Progress) (h : n.now < deadline) :
    (step key nonce p n).2.allowance resendInterval deadline ≤
      n.allowance resendInterval deadline := by
  rw [Network.allowance_of_stage (stage_step key nonce p n)]
  exact Network.allowance_receive_le (by decide) h capacity

/-- **An exchange keeps to its allowance.**  By induction over the steps. -/
theorem horizon_exchange_le (key : Key) (nonce : Bytes) (deadline : Int) (p : Progress)
    (n : Network) :
    (exchange key nonce deadline p n).2.horizon ≤ n.allowance resendInterval deadline := by
  fun_induction exchange key nonce deadline p n with
  | case1 p n hdone => exact n.horizon_le_allowance ..
  | case2 p n hopen htime => exact n.horizon_le_allowance ..
  | case3 p n hopen htime e m hstep =>
    have hallowance := allowance_step_le key nonce p (Int.not_le.mp htime)
    rw [hstep] at hallowance
    exact (m.horizon_le_allowance ..).trans hallowance
  | case4 p n hopen htime q m hstep ih =>
    have hallowance := allowance_step_le key nonce p (Int.not_le.mp htime)
    rw [hstep] at hallowance
    exact ih.trans hallowance

theorem overruns_run (key : Key) (timeout : Nat) :
    (run key timeout).Overruns (timeout ⌈/⌉ resendInterval) := by
  refine .after (Action.leaves_ofCheck _ _) fun _ => .after ?_ fun nonce => .after ?_ fun _ n => ?_
  · exact Action.leaves_drawBytes fun n => congrArg Prod.snd (n.stage_draw _)
  · exact Action.leaves_ofCall fun n => n.horizon_attempt _
  · rw [← Network.allowance_add_now]
    exact horizon_exchange_le key nonce (n.now + (timeout : Int)) {} n

/-- **The allowance is used up where nothing comes**, and the exchange runs into its deadline.
By induction over the steps. -/
theorem exchange_of_silence (h : n.Accepts) (hin : n.inbound = []) (hopen : p.verified = false)
    (key : Key) (nonce : Bytes) (deadline : Int) :
    ∃ m, exchange key nonce deadline p n = (.error .handshakeTimeout, m) ∧
      m.receives = n.allowance resendInterval deadline := by
  fun_induction exchange key nonce deadline p n with
  | case1 p n hdone =>
    rw [Progress.isDone, hopen, Bool.and_false] at hdone
    cases hdone
  | case2 p n hwaits htime =>
    refine ⟨n, rfl, ?_⟩
    rw [Network.allowance_of_late htime, horizon, hin]
    rfl
  | case3 p n hwaits htime e m hstep =>
    have hquiet : n.next.arrival = .silence := by rw [Network.next, hin]; rfl
    obtain ⟨k, hsilent, -⟩ := step_of_silence key nonce p h hquiet
    cases hstep.symm.trans hsilent
  | case4 p n hwaits htime q m hstep ih =>
    have hquiet : n.next.arrival = .silence := by rw [Network.next, hin]; rfl
    obtain ⟨k, hsilent, haccepts, -⟩ := step_of_silence key nonce p h hquiet
    have hstage := stage_step key nonce p n
    have hinbound := (after_step key nonce p n).inbound
    rw [hstep] at hsilent hstage hinbound
    rw [hin] at hinbound
    cases hsilent
    rw [← Network.allowance_receive_of_nil hin (by decide) (Int.not_le.mp htime) capacity,
      ← Network.allowance_of_stage hstage]
    exact ih haccepts hinbound hopen

end Authentication

/-! ### The rendezvous -/

namespace Rendezvous

variable {n : Network} {deadline : Int}

/-- **A wait for the answer keeps to its allowance and one call more**, for the clock is looked
at after a call.  By induction over its calls. -/
theorem Plan.horizon_await_le (plan : Plan) (deadline : Int) (n : Network) :
    (plan.await deadline n).2.horizon ≤ n.allowance resendInterval deadline + 1 := by
  have hlast (n : Network) : (n.receive resendInterval capacity).2.horizon ≤
      n.allowance resendInterval deadline + 1 :=
    (n.horizon_receive_le ..).trans (Nat.add_le_add_right (n.horizon_le_allowance ..) 1)
  have hsent (n : Network) : (n.sendTo plan.server plan.request.encode).2.stage = n.stage :=
    n.stage_attempt _
  fun_induction Plan.await plan deadline n with
  | case1 n outcome m hreceive result hjudge =>
    have hcall := hlast n
    rwa [hreceive] at hcall
  | case2 n outcome m hreceive hjudge htime =>
    have hcall := hlast n
    rwa [hreceive] at hcall
  | case3 n outcome m hreceive hjudge htime errno k hsend =>
    have hcall := hlast n
    have hstage := hsent m
    rw [hreceive] at hcall
    rw [hsend] at hstage
    exact (congrArg Prod.snd hstage).le.trans hcall
  | case4 n outcome m hreceive hjudge htime k hsend ih =>
    have hnow := n.now_le_receive resendInterval capacity
    rw [hreceive] at hnow
    have hearly : n.now < deadline := by dsimp only at hnow; omega
    have hinterval : 0 < resendInterval := by decide
    have hallowance := Network.allowance_receive_le hinterval hearly capacity
    have hstage := hsent m
    rw [hreceive] at hallowance
    rw [hsend] at hstage
    rw [Network.allowance_of_stage hstage] at ih
    exact ih.trans (Nat.add_le_add_right hallowance 1)

theorem leaves_reach_horizon (peer : Endpoint) : (reach peer).Leaves horizon := by
  refine leaves_reach (fun _ => rfl) (fun n => n.horizon_attempt _) fun n span => ?_
  unfold Network.sleep
  split <;> rfl

end Rendezvous

namespace Connection

open Rendezvous (Plan)

variable {n : Network} {meeting : Configuration.Meeting}

theorem leaves_openSocket_horizon (endpoint : Endpoint) : (openSocket endpoint).Leaves horizon :=
  leaves_openSocket fun _ => rfl

/-- A request, the wait for its answer and the check of it. -/
theorem overruns_request (plan : Plan) (timeout : Nat) :
    (plan.meet timeout).Overruns (timeout ⌈/⌉ Rendezvous.resendInterval + 1) := by
  intro n
  have hstage : (n.sendTo plan.server plan.request.encode).2.stage = n.stage := n.stage_attempt _
  cases hsend : n.sendTo plan.server plan.request.encode with
  | mk r m =>
    rw [hsend] at hstage
    cases r with
    | error errno =>
      have hcall : Action.ofCall (·.sendTo plan.server plan.request.encode) n =
          (.error (.system errno), m) :=
        Action.ofCall_of_error hsend
      have hfail : plan.meet timeout n = (.error (.system errno), m) :=
        Action.bind_of_error (f := fun _ => conclude plan (n.now + (timeout : Int))) hcall
      rw [hfail]
      exact (congrArg Prod.snd hstage).le.trans (Nat.le_add_right ..)
    | ok u =>
      have hconclude (deadline : Int) : (conclude plan deadline m).2.horizon =
          (plan.await deadline m).2.horizon :=
        Action.view_bind (fun entry => (Action.leaves_ofExcept _ _).bind fun _ =>
          Action.leaves_pure _ entry) m
      rw [meet_of_sent hsend, hconclude, ← Nat.add_assoc, ← Network.allowance_add_now,
        ← Network.allowance_of_stage hstage]
      exact plan.horizon_await_le _ m

/-- A host waits for at most one call more than there are arrivals: it ends with the first
silence.  By induction over the wait. -/
theorem overruns_awaitCaller (timeout : Nat) (deadline : Int) :
    Action.Overruns (awaitCaller timeout deadline) 1 := by
  intro n
  fun_induction awaitCaller timeout deadline n with
  | case1 n hlate => exact Nat.le_succ _
  | case2 n hearly hnone => exact n.horizon_receive_le ..
  | case3 n hearly e later hin d sender m hreceive hempty =>
    have hcall := n.horizon_receive_le timeout Sealed.maxSize
    rwa [hreceive] at hcall
  | case4 n hearly e later hin d sender m hreceive hfull ih =>
    have hcall := Network.horizon_receive_of_cons hin timeout Sealed.maxSize
    rw [hreceive] at hcall
    exact ih.trans (Nat.add_le_add_right hcall.le 1)
  | case5 n hearly e later hin errno m hreceive htimeout =>
    have hcall := n.horizon_receive_le timeout Sealed.maxSize
    rwa [hreceive] at hcall
  | case6 n hearly e later hin errno m hreceive hother =>
    have hcall := n.horizon_receive_le timeout Sealed.maxSize
    rwa [hreceive] at hcall

/-! ### Setups -/

/-- Locates a peer and lets its datagrams through: all that comes before a handshake through a
rendezvous server. -/
def encounter (plan : Plan) (meeting : Configuration.Meeting) : Action Network Endpoint := do
  let entry ← locate plan meeting
  Rendezvous.reach entry.peer
  pure entry.peer

theorem meet_eq_encounter (role : Role) (plan : Plan) (meeting : Configuration.Meeting) :
    meet role plan meeting = encounter plan meeting >>= fun peer => finish role peer meeting := by
  simp only [meet_eq, encounter, approach, Action.bind_assoc]
  rfl

/-- The receive calls that a rendezvous may make after the script. -/
def pairingCalls (meeting : Configuration.Meeting) : Nat :=
  meeting.rendezvousTimeout ⌈/⌉ Rendezvous.resendInterval + 1

/-- The receive calls that a handshake may make after the script. -/
def handshakeCalls (meeting : Configuration.Meeting) : Nat :=
  meeting.setupTimeout ⌈/⌉ Authentication.resendInterval

theorem overruns_encounter (plan : Plan) (meeting : Configuration.Meeting) :
    (encounter plan meeting).Overruns (pairingCalls meeting) :=
  Action.Overruns.before
    (.after (leaves_openSocket_horizon _) fun _ => .after (Action.leaves_ofCheck _ _) fun _ =>
      overruns_request plan _)
    fun _ => (Rendezvous.leaves_reach_horizon _).bind fun _ => Action.leaves_pure _ _

theorem overruns_pickUp (listen : Endpoint) (timeout : Nat) : (pickUp listen timeout).Overruns 1 :=
  .after (leaves_openSocket_horizon _) fun _ => .after (Action.leaves_ofCheck _ _) fun _ =>
    .after (Action.leaves_read _ _) fun deadline => overruns_awaitCaller timeout deadline

theorem leaves_dial_horizon (host : Endpoint) : (dial host).Leaves horizon :=
  (leaves_openSocket_horizon _).bind fun _ => (leaves_connect fun _ => rfl).bind fun _ =>
    Action.leaves_ofCall fun n => n.horizon_attempt _

theorem overruns_finish (role : Role) (peer : Endpoint) (meeting : Configuration.Meeting) :
    (finish role peer meeting).Overruns (handshakeCalls meeting) :=
  (Authentication.overruns_run _ _).before fun _ => (Action.leaves_ofCheck _ _).bind fun _ =>
    Action.leaves_read _ _

theorem overruns_meet (role : Role) (plan : Plan) (meeting : Configuration.Meeting) :
    (meet role plan meeting).Overruns (pairingCalls meeting + handshakeCalls meeting) := by
  rw [meet_eq_encounter]
  exact (overruns_encounter plan meeting).bind fun peer => overruns_finish role peer meeting

theorem overruns_accept (listen : Endpoint) (meeting : Configuration.Meeting) :
    (accept listen meeting).Overruns (1 + handshakeCalls meeting) := by
  rw [accept_eq]
  exact (overruns_pickUp listen _).bind fun caller =>
    .after (leaves_connect fun _ => rfl) fun _ =>
      overruns_finish .server caller meeting

theorem overruns_connect (host : Endpoint) (meeting : Configuration.Meeting) :
    (connect host meeting).Overruns (handshakeCalls meeting) := by
  rw [connect_eq]
  exact .after (leaves_dial_horizon host) fun _ => overruns_finish .client host meeting

/-- **However a connection is set up, the setup ends.** -/
theorem overruns_establish (role : Role) (meeting : Configuration.Meeting) :
    (establish role meeting).Overruns (pairingCalls meeting + handshakeCalls meeting) := by
  have hpairing : 1 ≤ pairingCalls meeting := Nat.le_add_left ..
  unfold establish
  split
  · exact overruns_meet .server _ meeting
  · exact (overruns_accept _ meeting).mono (Nat.add_le_add_right hpairing _)
  · exact (Action.overruns_of_leaves (Action.leaves_fail horizon _)).mono (Nat.zero_le _)
  · exact overruns_meet .client _ meeting
  · exact (overruns_connect _ meeting).mono (Nat.le_add_left ..)

/--
**Setups end.**  On any network, with a script of any length and content, and for any timeouts:

* a handshake makes at most as many receive calls as there are arrivals and resend intervals in
  its timeout;
* a host or a caller that goes through a rendezvous server makes at most one call more than there
  are arrivals and resend intervals in the rendezvous timeout, before it starts its handshake;
* a host that waits for a caller makes at most one call more than there are arrivals;

and each of them returns what it was to find, or a failure.  A whole setup makes the calls of both
its parts, but the arrivals count only once.
-/
theorem setups_end (key : Key) (timeout : Nat) (deadline : Int) (listen server : Endpoint)
    (ip : IPv4) (socket : UInt16) (role : Role) (meeting : Configuration.Meeting) (n : Network) :
    let arrivals := n.inbound.length
    let pairing := meeting.rendezvousTimeout ⌈/⌉ Rendezvous.resendInterval + 1
    let handshake := meeting.setupTimeout ⌈/⌉ Authentication.resendInterval
    let host := Plan.host server socket
    let caller := Plan.caller server ip socket
    (Authentication.run key timeout).EndsWithin n
        (arrivals + timeout ⌈/⌉ Authentication.resendInterval) ∧
      ((acceptThrough server socket meeting =
            encounter host meeting >>= fun peer => finish .server peer meeting) ∧
          (encounter host meeting).EndsWithin n (arrivals + pairing) ∧
          (acceptThrough server socket meeting).EndsWithin n
            (arrivals + (pairing + handshake))) ∧
      ((connectThrough server ip socket meeting =
            encounter caller meeting >>= fun peer => finish .client peer meeting) ∧
          (encounter caller meeting).EndsWithin n (arrivals + pairing) ∧
          (connectThrough server ip socket meeting).EndsWithin n
            (arrivals + (pairing + handshake))) ∧
      ((accept listen meeting =
            pickUp listen meeting.setupTimeout >>= fun peer => answerCall peer meeting) ∧
          Action.EndsWithin (awaitCaller timeout deadline) n (arrivals + 1) ∧
          (pickUp listen meeting.setupTimeout).EndsWithin n (arrivals + 1) ∧
          (accept listen meeting).EndsWithin n (arrivals + (1 + handshake))) ∧
      (establish role meeting).EndsWithin n (arrivals + (pairing + handshake)) :=
  ⟨(Authentication.overruns_run key timeout).endsWithin n,
    ⟨meet_eq_encounter .server _ meeting, (overruns_encounter _ meeting).endsWithin n,
      (overruns_meet .server _ meeting).endsWithin n⟩,
    ⟨meet_eq_encounter .client _ meeting, (overruns_encounter _ meeting).endsWithin n,
      (overruns_meet .client _ meeting).endsWithin n⟩,
    ⟨accept_eq listen meeting, (overruns_awaitCaller timeout deadline).endsWithin n,
      (overruns_pickUp listen _).endsWithin n, (overruns_accept listen meeting).endsWithin n⟩,
    (overruns_establish role meeting).endsWithin n⟩

end Connection

end Framecast
