/-
The peers that are reached through a rendezvous server.

Both ends go the same way: they locate the peer with the help of the server, and approach
it then.  Locating reaches nobody.  Approaching connects to the peer and is for that peer
alone; or the connect fails, and nobody is reached.  So whom a run connects to, and how it
ends if it connects to nobody, is settled by what was located, which datagrams of others do
not change.
-/
import Framecast.Proofs.Rendezvous.Vouched

namespace Framecast

open Rendezvous (Plan Entry Vouched Crowded Crowds)

/-- The peer that an effect connects to. -/
def Effect.peer? : Effect → Option Endpoint
  | .connected peer => some peer
  | _ => none

/-- The peers that were connected, in order. -/
def Network.peers (n : Network) : List Endpoint :=
  n.outreach.filterMap Effect.peer?

namespace Connection

open Network (outreach)
open Framecast.Action (leaves_ofCheck)

/-- Finds out where the peer is. -/
def locate (plan : Plan) (meeting : Configuration.Meeting) : Action Network Entry := do
  openSocket (.v4 .unspecified 0)
  .ofCheck Network.setReadTimeout
  plan.meet meeting.rendezvousTimeout

/-- Connects to a peer and makes the connection. -/
def approach (role : Role) (peer : Endpoint) (meeting : Configuration.Meeting) :
    Action Network Connection := do
  Rendezvous.reach peer
  finish role peer meeting

theorem meet_eq (role : Role) (plan : Plan) (meeting : Configuration.Meeting) :
    meet role plan meeting =
      locate plan meeting >>= fun entry => approach role entry.peer meeting := by
  simp only [meet, locate, approach, Action.bind_assoc]

/-! ### Locating -/

section Locate

variable {plan : Plan} {meeting : Configuration.Meeting} {n m : Network} {entry : Entry}

/-- Locating a peer reaches nobody. -/
theorem leaves_locate (plan : Plan) (meeting : Configuration.Meeting) :
    (locate plan meeting).Leaves outreach :=
  (leaves_openSocket fun n => (n.outreach_note _).trans (List.append_nil _)).bind fun _ =>
    (leaves_ofCheck _ _).bind fun _ => plan.leaves_meet _

theorem inbound_openSocket {endpoint : Endpoint} {u : Unit}
    (h : openSocket endpoint n = (.ok u, m)) : m.inbound = n.inbound := by
  have hleaves : (openSocket endpoint).Leaves Network.inbound := leaves_openSocket fun _ => rfl
  have hsame := hleaves n
  rwa [h] at hsame

/-- The entry of a peer that is located was sent by the server, and stands the check. -/
theorem vouched_of_locate (h : locate plan meeting n = (.ok entry, m)) :
    Vouched plan.server n entry ∧ plan.check entry = .ok () := by
  obtain ⟨u, n₁, hopen, hrest⟩ := Action.bind_eq_ok h
  obtain ⟨v, n₂, hcheck, hmeet⟩ := Action.bind_eq_ok hrest
  have hsecond : n₂ = n₁ := (congrArg Prod.snd hcheck).symm.trans (Action.ofCall_snd _ n₁)
  obtain ⟨hvouched, hstands⟩ := Plan.vouched_of_meet hmeet
  refine ⟨hvouched.mono fun e he => ?_, hstands⟩
  rwa [hsecond, inbound_openSocket hopen] at he

end Locate

/-! ### Approaching -/

/-- The connect fails, or the peer is connected and only sent to then. -/
theorem approach_cases (role : Role) (peer : Endpoint) (meeting : Configuration.Meeting)
    (n : Network) :
    (∃ errno, n.faults.connect = some errno ∧
        approach role peer meeting n = (.error (.system errno), n)) ∨
      n.faults.connect = none ∧ ∃ sent : List Bytes,
        (approach role peer meeting n).2.outreach =
          n.outreach ++ .connected peer :: sent.map .sent := by
  have hsplit : approach role peer meeting = Action.ofCall (·.connect peer) >>= fun _ =>
      Rendezvous.greet >>= fun _ => .change (·.sleep Rendezvous.settleTime) >>= fun _ =>
        finish role peer meeting := by
    simp only [approach, Rendezvous.reach, Action.bind_assoc]
  have hrest : Network.SendsOnly (Rendezvous.greet >>= fun _ =>
      .change (·.sleep Rendezvous.settleTime) >>= fun _ => finish role peer meeting) :=
    Rendezvous.sendsOnly_greet.bind fun _ =>
      (Network.sendsOnly_of_leaves fun n => n.outreach_sleep _).bind fun _ =>
        sendsOnly_finish role peer meeting
  rw [hsplit]
  cases hfault : n.faults.connect with
  | some errno =>
    refine Or.inl ⟨errno, rfl, Action.bind_of_error ?_⟩
    simp [Action.ofCall, Network.connect, Network.call, hfault]
  | none =>
    have hconnect : Action.ofCall (·.connect peer) n = (.ok (), n.note (.connected peer)) := by
      simp [Action.ofCall, Network.connect, Network.call, hfault]
    obtain ⟨sent, hsent⟩ := hrest (n.note (.connected peer))
    refine Or.inr ⟨rfl, sent, ?_⟩
    rw [Action.bind_of_ok hconnect, hsent, Network.outreach_note, List.append_assoc]
    rfl

theorem peers_of_connected {n m : Network} {peer : Endpoint} {sent : List Bytes}
    (h : m.outreach = n.outreach ++ .connected peer :: sent.map .sent) :
    m.peers = n.peers ++ [peer] := by
  have hsent : (sent.map Effect.sent).filterMap Effect.peer? = [] := by
    rw [List.filterMap_eq_nil_iff]
    intro e he
    obtain ⟨d, -, rfl⟩ := List.mem_map.mp he
    rfl
  rw [Network.peers, h, List.filterMap_append]
  show n.peers ++ peer :: (sent.map Effect.sent).filterMap Effect.peer? = _
  rw [hsent]

/-- A run reached nobody, or connected to one peer that `P` is true of and then only sent. -/
def ReachesOnly (P : Endpoint → Prop) (n m : Network) : Prop :=
  m.outreach = n.outreach ∨
    ∃ peer sent, P peer ∧ m.outreach = n.outreach ++ .connected peer :: List.map .sent sent

/-- **A meeting reaches only a peer that the server vouched for.** -/
theorem meet_reachesOnly (role : Role) (plan : Plan) (meeting : Configuration.Meeting)
    (n : Network) :
    ReachesOnly (fun peer => ∃ entry, Vouched plan.server n entry ∧ plan.check entry = .ok () ∧
      peer = entry.peer) n (meet role plan meeting n).2 := by
  have hlocate := leaves_locate plan meeting n
  rw [meet_eq]
  cases hlocated : locate plan meeting n with
  | mk r k =>
    rw [hlocated] at hlocate
    cases r with
    | error e =>
      rw [Action.bind_of_error hlocated]
      exact Or.inl hlocate
    | ok entry =>
      obtain ⟨hvouched, hstands⟩ := vouched_of_locate hlocated
      rw [Action.bind_of_ok hlocated]
      rcases approach_cases role entry.peer meeting k with ⟨errno, -, hfail⟩ | ⟨-, sent, hsent⟩
      · rw [hfail]
        exact Or.inl hlocate
      · refine Or.inr ⟨entry.peer, sent, ⟨entry, hvouched, hstands, rfl⟩, ?_⟩
        rw [hsent]
        exact congrArg (· ++ _) hlocate

/-! ### Datagrams of others -/

/-- An action ends alike on two networks. -/
def Alike {α : Type} (server : Endpoint) (x : Action Network α) (n m : Network) : Prop :=
  (x m).1 = (x n).1 ∧ Crowds server (x n).2 (x m).2

section Alike

variable {α β : Type} {server : Endpoint} {x : Action Network α} {f : α → Action Network β}
  {n m : Network}

theorem Alike.bind (hx : Alike server x n m)
    (hf : ∀ a n m, Crowds server n m → Alike server (f a) n m) :
    Alike server (x >>= f) n m := by
  obtain ⟨hresult, hcrowds⟩ := hx
  unfold Alike
  rw [Action.bind_apply, Action.bind_apply]
  cases hn : x n with
  | mk r k =>
    cases hm : x m with
    | mk r' k' =>
      rw [hn, hm] at hresult hcrowds
      cases hresult
      cases r with
      | error e => exact ⟨rfl, hcrowds⟩
      | ok a => exact hf a k k' hcrowds

theorem alike_ofExcept (h : Crowds server n m) (r : Except Failure α) :
    Alike server (.ofExcept r) n m :=
  ⟨rfl, h⟩

theorem alike_ofCall {call : Network → Except Errno α × Network}
    (hresult : (call m).1 = (call n).1) (hcrowds : Crowds server (call n).2 (call m).2) :
    Alike server (.ofCall call) n m := by
  unfold Alike Action.ofCall
  cases hn : call n with
  | mk r k =>
    cases hm : call m with
    | mk r' k' =>
      rw [hn, hm] at hresult hcrowds
      cases hresult
      cases r <;> exact ⟨rfl, hcrowds⟩

theorem alike_call (h : Crowds server n m) (fault : Option Errno) (effect : Effect) :
    (m.call fault effect).1 = (n.call fault effect).1 ∧
      Crowds server (n.call fault effect).2 (m.call fault effect).2 := by
  cases fault with
  | some errno => exact ⟨rfl, h⟩
  | none =>
    refine ⟨rfl, { h with outreach := ?_ }⟩
    show (m.note effect).outreach = (n.note effect).outreach
    rw [Network.outreach_note, Network.outreach_note, h.outreach]

theorem alike_openSocket (h : Crowds server n m) (endpoint : Endpoint) :
    Alike server (openSocket endpoint) n m := by
  have hopen : m.openSocket = n.openSocket := by
    rw [Network.openSocket, Network.openSocket, h.faults]
  refine (alike_ofCall hopen h).bind fun _ n m h => ?_
  have hbind : m.bind endpoint = m.call n.faults.bind (.bound endpoint) := by
    rw [Network.bind, h.faults]
  have hcall := alike_call h n.faults.bind (.bound endpoint)
  rw [← hbind] at hcall
  exact alike_ofCall hcall.1 hcall.2

/-- Waits for the answer to a request that was sent, and checks it. -/
def conclude (plan : Plan) (deadline : Int) : Action Network Entry := do
  let entry ← plan.await deadline
  .ofExcept (plan.check entry)
  pure entry

theorem meet_of_sent {plan : Plan} {timeout : Nat} {k : Network}
    (h : n.sendTo plan.server plan.request.encode = (.ok (), k)) :
    plan.meet timeout n = conclude plan (n.now + (timeout : Int)) k :=
  Action.bind_of_ok (Action.ofCall_of_ok h)

/-- **What the server answers is found alike.** -/
theorem alike_meet {plan : Plan} {timeout : Nat} (h : Crowds plan.server n m)
    (htimeout : 0 < timeout) : Alike plan.server (plan.meet timeout) n m := by
  obtain ⟨j, hj, hrequested⟩ := Rendezvous.requested_sendTo h.accepts
  obtain ⟨k, hk, hrequested'⟩ := Rendezvous.requested_sendTo h.accepts_crowd
  -- Both waits have the same deadline, and it is still to come.
  have hnow := hrequested.now
  have hwait : Alike plan.server (plan.await (n.now + (timeout : Int))) j k :=
    Plan.await_crowds (h.request_both hrequested hrequested') (by omega)
  have hconclude : Alike plan.server (conclude plan (n.now + (timeout : Int))) j k :=
    hwait.bind fun entry n m h =>
      (alike_ofExcept h (plan.check entry)).bind fun _ n m h => ⟨rfl, h⟩
  unfold Alike
  rw [meet_of_sent hj, meet_of_sent hk, h.now]
  exact hconclude

theorem alike_locate {plan : Plan} {meeting : Configuration.Meeting}
    (h : Crowds plan.server n m) (htimeout : 0 < meeting.rendezvousTimeout) :
    Alike plan.server (locate plan meeting) n m :=
  (alike_openSocket h _).bind fun _ n m h => by
    have hcheck : m.setReadTimeout = n.setReadTimeout := by
      rw [Network.setReadTimeout, Network.setReadTimeout, h.faults]
    exact (alike_ofCall hcheck h).bind fun _ n m h => alike_meet h htimeout

/-- **Datagrams of others change neither the peer nor the failure.**  The peers that a meeting
connects to are the same with them, and if it connects to nobody then so is its result. -/
theorem meet_undisturbed (role : Role) {plan : Plan} {meeting : Configuration.Meeting}
    (h : Crowds plan.server n m) (htimeout : 0 < meeting.rendezvousTimeout) :
    (meet role plan meeting m).2.peers = (meet role plan meeting n).2.peers ∧
      ((meet role plan meeting n).2.peers = n.peers →
        (meet role plan meeting m).1 = (meet role plan meeting n).1) := by
  obtain ⟨hresult, hcrowds⟩ := alike_locate h htimeout
  have hquiet := leaves_locate plan meeting n
  rw [meet_eq]
  cases hn : locate plan meeting n with
  | mk r j =>
    cases hm : locate plan meeting m with
    | mk r' k =>
      rw [hn, hm] at hresult hcrowds
      rw [hn] at hquiet
      cases hresult
      cases r with
      | error e =>
        rw [Action.bind_of_error hn, Action.bind_of_error hm]
        refine ⟨?_, fun _ => rfl⟩
        rw [Network.peers, hcrowds.outreach, Network.peers]
      | ok entry =>
        rw [Action.bind_of_ok hn, Action.bind_of_ok hm]
        have hfaults : k.faults = j.faults := hcrowds.faults
        have hsame : k.peers = j.peers := congrArg (List.filterMap Effect.peer?) hcrowds.outreach
        have hbefore : j.peers = n.peers := congrArg (List.filterMap Effect.peer?) hquiet
        rcases approach_cases role entry.peer meeting j with
          ⟨errno, hfault, hfail⟩ | ⟨hfault, sent, hsent⟩
        · rcases approach_cases role entry.peer meeting k with
            ⟨errno', hfault', hfail'⟩ | ⟨hfault', -⟩
          · rw [hfaults, hfault] at hfault'
            cases hfault'
            rw [hfail, hfail']
            exact ⟨hsame, fun _ => rfl⟩
          · rw [hfaults, hfault] at hfault'
            cases hfault'
        · rcases approach_cases role entry.peer meeting k with
            ⟨errno', hfault', -⟩ | ⟨-, sent', hsent'⟩
          · rw [hfaults, hfault] at hfault'
            cases hfault'
          · rw [peers_of_connected hsent, peers_of_connected hsent', hsame, hbefore]
            refine ⟨rfl, fun hnone => ?_⟩
            exact absurd hnone (by simp)

end Alike

/-! ### The two ends -/

theorem check_host_eq_ok {server : Endpoint} {socket : UInt16} {entry : Entry}
    (h : (Plan.host server socket).check entry = .ok ()) : entry.privateSocket ≠ 0 := by
  dsimp only [Plan.host] at h
  split at h
  · cases h
  · assumption

theorem check_caller_eq_ok {server : Endpoint} {ip : IPv4} {socket : UInt16} {entry : Entry}
    (h : (Plan.caller server ip socket).check entry = .ok ()) :
    entry.ip = ip ∧ entry.publicSocket = socket ∧ entry.privateSocket ≠ 0 := by
  dsimp only [Plan.caller, Rendezvous.Request.check, Rendezvous.Request.ask] at h
  split at h
  · cases h
  · rename_i hsame
    rw [not_or, Decidable.not_not, Decidable.not_not] at hsame
    split at h
    · cases h
    · exact ⟨hsame.1, hsame.2, by assumption⟩

/-- A run connects to the same peers if datagrams of others are put into its script, and if it
connects to nobody then its result is the same too. -/
def Undisturbed (run : Action Network Connection) (n : Network) (crowd : List Event) : Prop :=
  (run { n with inbound := crowd }).2.peers = (run n).2.peers ∧
    ((run n).2.peers = n.peers → (run { n with inbound := crowd }).1 = (run n).1)

/--
**Nobody is reached whom the rendezvous server did not vouch for.**  On any network:

* a host reaches nobody, or connects to one peer and only sends to it then: the address and
  the private socket, not zero, of an entry that the server sent in a datagram of its own;
* a caller reaches nobody, or connects to one peer and only sends to it then: the address it
  asked for, at a private socket, not zero, that the server sent in a datagram of its own
  together with the address and the public socket it asked for;
* as long as every send is accepted and there is time to wait at all, datagrams of others that
  come without delay change neither the peer nor the failure of either.
-/
theorem reaches_only_vouched_peers (server : Endpoint) (ip : IPv4) (socket : UInt16)
    (meeting : Configuration.Meeting) (n : Network) :
    ReachesOnly (fun peer => ∃ entry, Vouched server n entry ∧ entry.privateSocket ≠ 0 ∧
        peer = .v4 entry.ip entry.privateSocket)
      n (acceptThrough server socket meeting n).2 ∧
    ReachesOnly (fun peer => ∃ privateSocket, Vouched server n ⟨ip, socket, privateSocket⟩ ∧
        privateSocket ≠ 0 ∧ peer = .v4 ip privateSocket)
      n (connectThrough server ip socket meeting n).2 ∧
    (0 < meeting.rendezvousTimeout → (∀ fate ∈ n.outbound, fate = none) →
      ∀ crowd, Crowded server n.inbound crowd →
        Undisturbed (acceptThrough server socket meeting) n crowd ∧
          Undisturbed (connectThrough server ip socket meeting) n crowd) := by
  refine ⟨?_, ?_, fun htimeout haccepts crowd hcrowded => ?_⟩
  · rcases meet_reachesOnly .server (.host server socket) meeting n with
      hnobody | ⟨peer, sent, ⟨entry, hvouched, hcheck, hpeer⟩, hreached⟩
    · exact Or.inl hnobody
    · exact Or.inr ⟨peer, sent, ⟨entry, hvouched, check_host_eq_ok hcheck, hpeer⟩, hreached⟩
  · rcases meet_reachesOnly .client (.caller server ip socket) meeting n with
      hnobody | ⟨peer, sent, ⟨entry, hvouched, hcheck, hpeer⟩, hreached⟩
    · exact Or.inl hnobody
    · obtain ⟨rfl, rfl, hprivate⟩ := check_caller_eq_ok hcheck
      exact Or.inr ⟨peer, sent, ⟨_, hvouched, hprivate, hpeer⟩, hreached⟩
  · have hhost : Crowds (Plan.host server socket).server n { n with inbound := crowd } :=
      ⟨hcrowded, rfl, rfl, rfl, haccepts, haccepts⟩
    have hcaller : Crowds (Plan.caller server ip socket).server n { n with inbound := crowd } :=
      ⟨hcrowded, rfl, rfl, rfl, haccepts, haccepts⟩
    exact ⟨meet_undisturbed .server hhost htimeout, meet_undisturbed .client hcaller htimeout⟩

/-- A stranger comes before the server's answer, and again after it. -/
theorem strangers_change_no_peer :
    let server := Endpoint.v4 .loopback 3478
    let stranger : Event := ⟨.datagram [1, 2, 3] (.v4 .loopback 7), 0⟩
    let answer : Event := ⟨.datagram (Entry.encode ⟨.loopback, 9000, 40001⟩) server, 0⟩
    let call := connectThrough server .loopback 9000 { key := .constant 1 }
    (call { inbound := [stranger, answer, stranger] }).2.peers =
      (call { inbound := [answer] }).2.peers := by
  intro server stranger answer call
  have hsender : Endpoint.v4 .loopback 7 ≠ server := by decide
  have hcrowded : Crowded server [answer] [stranger, answer, stranger] :=
    .stranger _ hsender (.keep answer (.stranger _ hsender .nil))
  have h := reaches_only_vouched_peers server .loopback 9000 { key := .constant 1 }
    { inbound := [answer] }
  exact (h.2.2 (by decide) (fun _ hfate => absurd hfate List.not_mem_nil) _ hcrowded).2.1

end Connection

end Framecast
