/-
When a request to the rendezvous server is sent again.

The request is sent once and then at the prompts of the script, and here whatever does not end
the wait is a prompt: a read that timed out or was refused, and also every datagram that is not
the answer.  So whoever sends datagrams to the socket has a request sent for each of them.  What
comes after the answer sends no request, and what comes before takes no time.
-/
import Framecast.Proofs.Authentication.Ends
import Framecast.Proofs.Authentication.Resending
import Framecast.Proofs.Rendezvous.Peers

namespace Framecast

open Network (times stand timesSince Prompted FollowsScript ScriptDriven prompted_of_times_eq)

namespace Rendezvous

/-- Whether the effect sends the request of the plan. -/
def Plan.requests (plan : Plan) (e : Effect) : Bool :=
  e = .sentTo plan.server plan.request.encode

/-- Whether the request is sent again after the event, if there is time. -/
def Plan.prompts (plan : Plan) (e : Event) : Bool :=
  (plan.judge (e.outcome capacity)).isNone

theorem Plan.requests_request (plan : Plan) :
    plan.requests (.sentTo plan.server plan.request.encode) = true := by
  simp [requests]

theorem Plan.requests_refused (plan : Plan) (errno : Errno) :
    plan.requests (.refused errno) = false := by
  simp [requests]

theorem Plan.prompts_quiet (plan : Plan) : plan.prompts .quiet = true := by
  simp [prompts, Event.quiet, Event.outcome, judge, Errno.isTimeout]

/-- **A wait sends the request again at its prompts.**  By induction over its reads. -/
theorem Plan.prompted_await (plan : Plan) (deadline : Int) (n : Network) :
    Prompted resendInterval plan.prompts plan.requests n (plan.await deadline n).2 := by
  fun_induction Plan.await plan deadline n with
  | case1 n outcome m hreceive result hjudge =>
    have hreceived := Network.times_receive plan.requests n resendInterval capacity
    rw [hreceive] at hreceived
    exact prompted_of_times_eq hreceived
  | case2 n outcome m hreceive hjudge htime =>
    have hreceived := Network.times_receive plan.requests n resendInterval capacity
    rw [hreceive] at hreceived
    exact prompted_of_times_eq hreceived
  | case3 n outcome m hreceive hjudge htime errno k hsend =>
    have hreceived := Network.times_receive plan.requests n resendInterval capacity
    rw [hreceive] at hreceived
    refine prompted_of_times_eq ?_
    rw [Network.times_attempt_of_error plan.requests_refused hsend, hreceived]
  | case4 n outcome m hreceive hjudge htime k hsend ih =>
    have hcall := n.receive_eq resendInterval capacity
    rw [hreceive, Prod.mk.injEq] at hcall
    obtain ⟨houtcome, rfl⟩ := hcall
    have hprompts : plan.prompts n.next = true := by
      rw [Plan.prompts, ← houtcome, hjudge]
      rfl
    have hnow := Network.now_attempt (n.returned n.inbound.tail (n.next.span resendInterval))
      (.sentTo plan.server plan.request.encode)
    have hinbound := Network.inbound_attempt
      (n.returned n.inbound.tail (n.next.span resendInterval))
      (.sentTo plan.server plan.request.encode)
    have hcall : Network.attempt (n.returned n.inbound.tail (n.next.span resendInterval))
      (.sentTo plan.server plan.request.encode) = (.ok (), k) := hsend
    rw [hcall] at hnow hinbound
    refine ih.again plan.prompts_quiet hprompts ⟨hnow, hinbound⟩ ?_
    rw [Network.times_attempt_of_ok hcall, plan.requests_request, hnow]
    rfl

/-! ### After the answer -/

theorem Plan.steady_requests (plan : Plan) : Authentication.Steady (times plan.requests) where
  send n d _ := n.times_attempt_of_not plan.requests_refused (by simp [requests])
  receive := Network.times_receive plan.requests
  draw n size := by
    unfold Network.draw
    cases n.random.draw? size <;> rfl

theorem Plan.leaves_reach (plan : Plan) (peer : Endpoint) :
    (reach peer).Leaves (times plan.requests) := by
  refine Rendezvous.leaves_reach (fun n => ?_) (fun n => ?_) fun n span => ?_
  · simp [Network.times_note, requests]
  · exact n.times_attempt_of_not plan.requests_refused (by simp [Plan.requests])
  · unfold Network.sleep
    split
    · rfl
    · show (n.note (.slept span)).times plan.requests = _
      simp [Network.times_note, requests]

end Rendezvous

namespace Connection

open Rendezvous (Plan)

theorem prompted_conclude (plan : Plan) (deadline : Int) (n : Network) :
    Prompted Rendezvous.resendInterval plan.prompts plan.requests n
      (conclude plan deadline n).2 := by
  have htimes : (conclude plan deadline n).2.times plan.requests =
      (plan.await deadline n).2.times plan.requests :=
    Action.view_bind (fun entry => (Action.leaves_ofExcept _ _).bind fun _ =>
      Action.leaves_pure _ entry) n
  obtain ⟨count, hcount⟩ := plan.prompted_await deadline n
  exact ⟨count, by rw [htimes, hcount]⟩

/-- A request, the wait for its answer and the check of it. -/
theorem scriptDriven_request (plan : Plan) (timeout : Nat) :
    ScriptDriven Rendezvous.resendInterval plan.prompts plan.requests (plan.meet timeout) := by
  intro n
  have hnow := n.now_attempt (.sentTo plan.server plan.request.encode)
  have hinbound := n.inbound_attempt (.sentTo plan.server plan.request.encode)
  cases hsend : n.attempt (.sentTo plan.server plan.request.encode) with
  | mk r m =>
    rw [hsend] at hnow hinbound
    cases r with
    | error errno =>
      have hcall : Action.ofCall (·.sendTo plan.server plan.request.encode) n =
          (.error (.system errno), m) :=
        Action.ofCall_of_error hsend
      have hfail : plan.meet timeout n = (.error (.system errno), m) :=
        Action.bind_of_error (f := fun _ => conclude plan (n.now + (timeout : Int))) hcall
      rw [hfail]
      exact Network.followsScript_of_times_eq
        (Network.times_attempt_of_error plan.requests_refused hsend)
    | ok u =>
      rw [meet_of_sent hsend]
      refine Network.followsScript_of_prompted hnow hinbound ?_ (prompted_conclude plan _ m)
      rw [Network.times_attempt_of_ok hsend, plan.requests_request]
      rfl

theorem stand_openSocket (plan : Plan) (endpoint : Endpoint) :
    (openSocket endpoint).Leaves (stand plan.requests) := by
  refine leaves_openSocket fun n => ?_
  have htimes : (n.note (.bound endpoint)).times plan.requests = n.times plan.requests := by
    simp [Network.times_note, Plan.requests]
  show (n.now, n.inbound, (n.note (.bound endpoint)).times plan.requests) = _
  rw [htimes]
  rfl

theorem scriptDriven_meet (role : Role) (plan : Plan) (meeting : Configuration.Meeting) :
    ScriptDriven Rendezvous.resendInterval plan.prompts plan.requests (meet role plan meeting) :=
  .after (stand_openSocket plan _) fun _ => .after (Action.leaves_ofCheck _ _) fun _ =>
    (scriptDriven_request plan _).before fun _ => (plan.leaves_reach _).bind fun _ =>
      (plan.steady_requests.run _ _).bind fun _ => (Action.leaves_ofCheck _ _).bind fun _ =>
        Action.leaves_read _ _

/--
**When requests and challenges are sent again.**  On any network and whatever its script says,
the requests of a host, the requests of a caller and the challenges of a handshake follow the
script.  The `k`-th repetition comes just when the script prompts it; it comes no earlier than
`k` intervals after the first sending if and only if the script makes the program wait as long
for it, and it does so if no prompt comes before a read timeout is over.

A rendezvous takes every datagram that is not the answer for a prompt, and a handshake none.
-/
theorem resending_follows_script (server : Endpoint) (ip : IPv4) (socket : UInt16)
    (meeting : Configuration.Meeting) (key : Key) (timeout : Nat) (n : Network) :
    let host := Plan.host server socket
    let caller := Plan.caller server ip socket
    FollowsScript Rendezvous.resendInterval host.prompts n
        (timesSince host.requests n (acceptThrough server socket meeting n).2) ∧
      FollowsScript Rendezvous.resendInterval caller.prompts n
        (timesSince caller.requests n (connectThrough server ip socket meeting n).2) ∧
      FollowsScript Authentication.resendInterval Authentication.prompts n
        (timesSince Authentication.sendsChallenge n (Authentication.run key timeout n).2) :=
  ⟨scriptDriven_meet .server _ meeting n, scriptDriven_meet .client _ meeting n,
    Authentication.scriptDriven_run key timeout n⟩

/-- After a stray datagram the request goes out a second time at once, and after a refusal the
challenge does. -/
theorem early_prompts_break_pace :
    let server := Endpoint.v4 .loopback 3478
    let meeting : Configuration.Meeting := { key := .constant 1, rendezvousTimeout := 1 }
    let stray : Network := { inbound := [⟨.datagram [1, 2, 3] (.v4 .loopback 7), 0⟩] }
    let refusal : Network := { inbound := [⟨.failure .connectionRefused, 0⟩] }
    ¬ Paced Rendezvous.resendInterval (timesSince (Plan.host server 9000).requests stray
        (acceptThrough server 9000 meeting stray).2) ∧
      ¬ Paced Authentication.resendInterval (timesSince Authentication.sendsChallenge refusal
        (Authentication.run meeting.key 1 refusal).2) := by
  intro server meeting stray refusal
  constructor
  · let plan := Plan.host server 9000
    let request := Effect.sentTo plan.server plan.request.encode
    let asked : Network :=
      { stray with trace := #[(0, .bound (.v4 .unspecified 0)), (0, request)] }
    let again : Network := { trace := asked.trace.push (0, request), receives := 1 }
    let late : Network := { again with now := 100000000, receives := 2 }
    have hfirst : plan.await 1 asked = plan.await 1 again := by
      rw [Plan.await_eq]
      rfl
    have hlast : plan.await 1 again = (.error .rendezvousTimeout, late) := by
      rw [Plan.await_eq]
      rfl
    have hlocate : locate plan meeting stray = (.error .rendezvousTimeout, late) := by
      have hconclude : locate plan meeting stray = conclude plan 1 asked := rfl
      rw [hconclude]
      exact Action.bind_of_error (hfirst.trans hlast)
    have hrun : acceptThrough server 9000 meeting stray = (.error .rendezvousTimeout, late) := by
      rw [acceptThrough, meet_eq]
      exact Action.bind_of_error hlocate
    have htimes : timesSince plan.requests stray late = [0, 0] := by
      simp [timesSince, times, late, again, asked, stray, Plan.requests, request]
    rw [hrun, htimes]
    exact fun h => absurd (h 0 rfl 1 0 rfl) (by decide)
  · let nonce := (refusal.draw Authentication.nonceSize).1.getD []
    let challenge := Effect.sent (Authentication.challenge nonce)
    let opened : Network :=
      { refusal with
        random := (refusal.draw Authentication.nonceSize).2.random
        trace := #[(0, challenge)] }
    let again : Network :=
      { opened with inbound := [], trace := opened.trace.push (0, challenge), receives := 1 }
    let late : Network :=
      { again with now := 50000000, trace := again.trace.push (50000000, challenge), receives := 2 }
    have hfirst : Authentication.exchange meeting.key nonce 1 {} opened =
        Authentication.exchange meeting.key nonce 1 {} again :=
      Authentication.exchange_of_step rfl (by decide) rfl
    have hsecond : Authentication.exchange meeting.key nonce 1 {} again =
        Authentication.exchange meeting.key nonce 1 {} late :=
      Authentication.exchange_of_step rfl (by decide) rfl
    have hlast : Authentication.exchange meeting.key nonce 1 {} late =
        (.error .handshakeTimeout, late) :=
      Authentication.exchange_of_late rfl (by decide)
    have hrun : Authentication.run meeting.key 1 refusal = (.error .handshakeTimeout, late) :=
      hfirst.trans (hsecond.trans hlast)
    have htimes : timesSince Authentication.sendsChallenge refusal late = [0, 0, 50000000] := by
      rfl
    rw [hrun, htimes]
    exact fun h => absurd (h 0 rfl 1 0 rfl) (by decide)

end Connection

end Framecast
