/-
Only a peer that the rendezvous server vouched for is ever reached.

An end takes its peer from an entry, and the entry from a datagram of the rendezvous
server that holds it and nothing else.  Until there is such an entry, and it stands the
check of the plan, nothing is meant for a peer; then one peer is connected, and only
datagrams to it follow.

Datagrams of others are passed over.  As long as they come without delay and the request
can be sent again after each, the clock stands still while they are passed over, and what
ends the wait is the same as without them.  `Crowded` is a script with datagrams of others
put in, and `Crowds` is what the states of the two runs have in common on the way.
-/
import Framecast.Proofs.Rendezvous.Entry
import Framecast.Proofs.Rendezvous.Outreach

namespace Framecast

namespace Rendezvous

open Network (outreach)
open Framecast.Action (leaves_pure leaves_read leaves_ofExcept leaves_ofCall)

/-! ### Where an entry comes from -/

/-- A datagram of the server holds the entry and nothing else. -/
def Vouched (server : Endpoint) (n : Network) (entry : Entry) : Prop :=
  ∃ d delay, ⟨.datagram d server, delay⟩ ∈ n.inbound ∧ d.length = Entry.size ∧ d = entry.encode

theorem Vouched.mono {server : Endpoint} {n m : Network} {entry : Entry}
    (h : Vouched server m entry) (hsub : ∀ e ∈ m.inbound, e ∈ n.inbound) :
    Vouched server n entry := by
  obtain ⟨d, delay, hd, hsize, hencode⟩ := h
  exact ⟨d, delay, hsub _ hd, hsize, hencode⟩

/-- Cutting a datagram to what is read of it does not make it an entry. -/
theorem eq_encode_of_take {d : Bytes} {entry : Entry} (h : d.take capacity = entry.encode) :
    d = entry.encode := by
  have hlength := congrArg List.length h
  have hsize : Entry.size = 8 := rfl
  have hcapacity : capacity = 64 := rfl
  rw [List.length_take, Entry.length_encode] at hlength
  rwa [List.take_of_length_le (by omega)] at h

variable {plan : Plan} {deadline : Int} {n m k : Network} {entry : Entry}

/-- What is taken for the answer came from the server. -/
theorem Plan.vouched_of_judge {outcome : Except Errno (Bytes × Endpoint)}
    (hreceive : n.receive resendInterval capacity = (outcome, m))
    (h : plan.judge outcome = some (.ok entry)) : Vouched plan.server n entry := by
  unfold Network.receive at hreceive
  split at hreceive <;> cases hreceive
  · cases h
  · rename_i d sender delay later hinbound
    dsimp only [Plan.judge] at h
    split at h
    · rename_i hanswer
      rw [Option.some.injEq, Entry.ofDatagram_eq_ok_iff] at h
      have hd := eq_encode_of_take h
      refine ⟨d, delay, ?_, by rw [hd, Entry.length_encode], hd⟩
      rw [hinbound, ← hanswer.1]
      exact List.mem_cons_self ..
    · cases h
  · dsimp only [Plan.judge] at h
    split at h <;> cases h
  · cases h

theorem Plan.vouched_of_await (h : (plan.await deadline n).1 = .ok entry) :
    Vouched plan.server n entry := by
  fun_induction Plan.await plan deadline n with
  | case1 n outcome m hreceive result hjudge =>
    change result = .ok entry at h
    rw [h] at hjudge
    exact Plan.vouched_of_judge hreceive hjudge
  | case2 n outcome m hreceive hjudge htime => cases h
  | case3 n outcome m hreceive hjudge htime errno k hsend => cases h
  | case4 n outcome m hreceive hjudge htime k hsend ih =>
    refine (ih h).mono fun e he => ?_
    have hreceived := n.inbound_receive resendInterval capacity
    have hsent : (m.sendTo plan.server plan.request.encode).2.inbound = m.inbound :=
      m.inbound_attempt _
    rw [hsend] at hsent
    rw [hreceive] at hreceived
    rw [hsent, hreceived] at he
    exact List.mem_of_mem_tail he

theorem Plan.outreach_await (plan : Plan) (deadline : Int) (n : Network) :
    (plan.await deadline n).2.outreach = n.outreach := by
  have hreceived (n : Network) : (n.receive resendInterval capacity).2.outreach = n.outreach :=
    n.outreach_receive _ _
  have hsent (n : Network) :
      (n.sendTo plan.server plan.request.encode).2.outreach = n.outreach :=
    n.outreach_sendTo _ _
  fun_induction Plan.await plan deadline n with
  | case1 n outcome m hreceive result hjudge => rw [← hreceived n, hreceive]
  | case2 n outcome m hreceive hjudge htime => rw [← hreceived n, hreceive]
  | case3 n outcome m hreceive hjudge htime errno k hsend =>
    rw [← hreceived n, hreceive, ← hsent m, hsend]
  | case4 n outcome m hreceive hjudge htime k hsend ih =>
    rw [ih, ← hreceived n, hreceive, ← hsent m, hsend]

theorem Plan.leaves_meet (plan : Plan) (timeout : Nat) : (plan.meet timeout).Leaves outreach :=
  (leaves_read _ _).bind fun deadline =>
    (leaves_ofCall fun n => Network.outreach_sendTo n _ _).bind fun _ =>
      Action.Leaves.bind (plan.outreach_await deadline) fun entry =>
        (leaves_ofExcept _ _).bind fun _ => leaves_pure _ entry

/-- **The entry that an end goes by was sent by the server, and stands the check.** -/
theorem Plan.vouched_of_meet {timeout : Nat} (h : plan.meet timeout n = (.ok entry, m)) :
    Vouched plan.server n entry ∧ plan.check entry = .ok () := by
  obtain ⟨deadline, n₁, hread, hrest⟩ := Action.bind_eq_ok h
  obtain ⟨u, n₂, hsend, hrest⟩ := Action.bind_eq_ok hrest
  obtain ⟨answer, n₃, hawait, hrest⟩ := Action.bind_eq_ok hrest
  obtain ⟨u', n₄, hcheck, hdone⟩ := Action.bind_eq_ok hrest
  cases hread
  cases hdone
  have hsent : n₂.inbound = n.inbound := by
    have hcall : n₂ = (n.sendTo plan.server plan.request.encode).2 :=
      (congrArg Prod.snd hsend).symm.trans (Action.ofCall_snd _ n)
    rw [hcall]
    exact n.inbound_attempt _
  refine ⟨(Plan.vouched_of_await (congrArg Prod.fst hawait)).mono fun e he => ?_,
    congrArg Prod.fst hcheck⟩
  rwa [← hsent]

/-! ### Datagrams of others -/

/-- The second script is the first one with datagrams of others than the server put in, each
of which comes at once. -/
inductive Crowded (server : Endpoint) : List Event → List Event → Prop
  | nil : Crowded server [] []
  | keep (e : Event) {script crowd : List Event} :
      Crowded server script crowd → Crowded server (e :: script) (e :: crowd)
  | stranger (d : Bytes) {sender : Endpoint} {script crowd : List Event} : sender ≠ server →
      Crowded server script crowd → Crowded server script (⟨.datagram d sender, 0⟩ :: crowd)

/-- Two networks that differ in datagrams of others to come, in how often they were sent to
while nobody was reached, and accept whatever is sent. -/
structure Crowds (server : Endpoint) (n m : Network) : Prop where
  inbound : Crowded server n.inbound m.inbound
  now : m.now = n.now
  faults : m.faults = n.faults
  outreach : m.outreach = n.outreach
  accepts : ∀ fate ∈ n.outbound, fate = none
  accepts_crowd : ∀ fate ∈ m.outbound, fate = none

/-- A request to a network that accepts it. -/
structure Requested (n k : Network) : Prop where
  inbound : k.inbound = n.inbound
  now : k.now = n.now
  faults : k.faults = n.faults
  outreach : k.outreach = n.outreach
  accepts : ∀ fate ∈ k.outbound, fate = none

theorem requested_sendTo {destination : Endpoint} {d : Bytes}
    (h : ∀ fate ∈ n.outbound, fate = none) :
    ∃ k, n.sendTo destination d = (.ok (), k) ∧ Requested n k := by
  have houtreach := Network.outreach_sendTo n destination d
  unfold Network.sendTo Network.attempt at houtreach ⊢
  cases hout : n.outbound with
  | nil =>
    rw [hout] at houtreach
    exact ⟨_, rfl, rfl, rfl, rfl, houtreach, h⟩
  | cons fate later =>
    rw [hout] at houtreach h
    obtain rfl := h fate (List.mem_cons_self ..)
    exact ⟨_, rfl, rfl, rfl, rfl, houtreach,
      fun fate hfate => h fate (List.mem_cons_of_mem _ hfate)⟩

namespace Crowds

variable {server : Endpoint}

theorem request (h : Crowds server n m) (hk : Requested m k) : Crowds server n k where
  inbound := by rw [hk.inbound]; exact h.inbound
  now := hk.now.trans h.now
  faults := hk.faults.trans h.faults
  outreach := hk.outreach.trans h.outreach
  accepts := h.accepts
  accepts_crowd := hk.accepts

theorem request_both (h : Crowds server n m) {j : Network} (hj : Requested n j)
    (hk : Requested m k) : Crowds server j k where
  inbound := by rw [hk.inbound, hj.inbound]; exact h.inbound
  now := by rw [hk.now, hj.now, h.now]
  faults := by rw [hk.faults, hj.faults, h.faults]
  outreach := by rw [hk.outreach, hj.outreach, h.outreach]
  accepts := hj.accepts
  accepts_crowd := hk.accepts

theorem returned (h : Crowds server n m) {script crowd : List Event}
    (hcrowded : Crowded server script crowd) (span : Nat) :
    Crowds server (n.returned script span) (m.returned crowd span) where
  inbound := hcrowded
  now := congrArg (· + (span : Int)) h.now
  faults := h.faults
  outreach := h.outreach
  accepts := h.accepts
  accepts_crowd := h.accepts_crowd

/-- A datagram of another takes no time. -/
theorem passed_over (h : Crowds server n m) {crowd : List Event}
    (hcrowded : Crowded server n.inbound crowd) : Crowds server n (m.returned crowd 0) where
  inbound := hcrowded
  now := (Int.add_zero _).trans h.now
  faults := h.faults
  outreach := h.outreach
  accepts := h.accepts
  accepts_crowd := h.accepts_crowd

/-- A receive call brings a datagram of another and takes no time, or the same on both. -/
theorem receive (h : Crowds server n m) (timeout capacity : Nat) :
    (∃ d sender, sender ≠ server ∧ (m.receive timeout capacity).1 = .ok (d, sender) ∧
        Crowds server n (m.receive timeout capacity).2) ∨
      ((m.receive timeout capacity).1 = (n.receive timeout capacity).1 ∧
        Crowds server (n.receive timeout capacity).2 (m.receive timeout capacity).2) := by
  have hcrowded := h.inbound
  unfold Network.receive
  generalize hscript : n.inbound = script at hcrowded
  generalize hcrowd : m.inbound = crowd at hcrowded
  cases hcrowded with
  | nil => exact Or.inr ⟨rfl, h.returned .nil timeout⟩
  | keep e hlater =>
    obtain ⟨arrival, delay⟩ := e
    refine Or.inr ?_
    cases arrival with
    | datagram d sender => exact ⟨rfl, h.returned hlater delay⟩
    | failure errno => exact ⟨rfl, h.returned hlater delay⟩
    | silence => exact ⟨rfl, h.returned hlater timeout⟩
  | stranger d hsender hlater =>
    exact Or.inl ⟨_, _, hsender, rfl, h.passed_over (by rw [hscript]; exact hlater)⟩

end Crowds

theorem Plan.judge_stranger {d : Bytes} {sender : Endpoint} (h : sender ≠ plan.server) :
    plan.judge (.ok (d, sender)) = none := by
  dsimp only [Plan.judge]
  rw [if_neg fun hc => h hc.1]

/-- One turn of the wait. -/
theorem Plan.await_eq (plan : Plan) (deadline : Int) (n : Network) :
    plan.await deadline n =
      match plan.judge (n.receive resendInterval capacity).1 with
      | some result => (result, (n.receive resendInterval capacity).2)
      | none =>
        let m := (n.receive resendInterval capacity).2
        if deadline ≤ m.now then (.error .rendezvousTimeout, m)
        else
          match m.sendTo plan.server plan.request.encode with
          | (.error errno, k) => (.error (.system errno), k)
          | (.ok (), k) => plan.await deadline k := by
  rw [Plan.await]
  split
  rename_i outcome m hreceive
  rw [hreceive]
  dsimp only
  cases plan.judge outcome with
  | some result => rfl
  | none =>
    dsimp only
    split
    · rfl
    · split <;> rename_i hsend <;> rw [hsend]

/-- **Datagrams of others do not change what ends the wait.**  By induction over the wait
with them: a datagram of another is a turn of it alone, any other arrival a turn of both. -/
theorem Plan.await_crowds (h : Crowds plan.server n m) (htime : n.now < deadline) :
    (plan.await deadline m).1 = (plan.await deadline n).1 ∧
      Crowds plan.server (plan.await deadline n).2 (plan.await deadline m).2 := by
  fun_induction Plan.await plan deadline m generalizing n with
  | case1 m outcome m' hreceive result hjudge =>
    have hcases := h.receive resendInterval capacity
    rw [hreceive] at hcases
    rcases hcases with ⟨d, sender, hsender, rfl, -⟩ | ⟨hsame, hcrowds⟩
    · rw [Plan.judge_stranger hsender] at hjudge
      cases hjudge
    · rw [Plan.await_eq plan deadline n, ← hsame, hjudge]
      exact ⟨rfl, hcrowds⟩
  | case2 m outcome m' hreceive hjudge hlate =>
    have hcases := h.receive resendInterval capacity
    rw [hreceive] at hcases
    rcases hcases with ⟨d, sender, -, -, hcrowds⟩ | ⟨hsame, hcrowds⟩
    · have hnow : m'.now = n.now := hcrowds.now
      omega
    · have hnow : m'.now = (n.receive resendInterval capacity).2.now := hcrowds.now
      rw [Plan.await_eq plan deadline n, ← hsame, hjudge]
      dsimp only
      rw [if_pos (by omega)]
      exact ⟨rfl, hcrowds⟩
  | case3 m outcome m' hreceive hjudge hearly errno k hsend =>
    have hcases := h.receive resendInterval capacity
    rw [hreceive] at hcases
    have haccepts : ∀ fate ∈ m'.outbound, fate = none := by
      rcases hcases with ⟨d, sender, -, -, hcrowds⟩ | ⟨-, hcrowds⟩
      · exact hcrowds.accepts_crowd
      · exact hcrowds.accepts_crowd
    obtain ⟨k', hsent, -⟩ := requested_sendTo haccepts
    rw [hsent] at hsend
    cases hsend
  | case4 m outcome m' hreceive hjudge hearly k hsend ih =>
    have hcases := h.receive resendInterval capacity
    rw [hreceive] at hcases
    rcases hcases with ⟨d, sender, -, -, hcrowds⟩ | ⟨hsame, hcrowds⟩
    · obtain ⟨k', hsent, hrequested⟩ := requested_sendTo hcrowds.accepts_crowd
      rw [hsent] at hsend
      cases hsend
      exact ih (hcrowds.request hrequested) htime
    · have hnow : m'.now = (n.receive resendInterval capacity).2.now := hcrowds.now
      obtain ⟨k', hsent, hrequested⟩ := requested_sendTo hcrowds.accepts_crowd
      rw [hsent] at hsend
      cases hsend
      obtain ⟨j, hsent', hrequested'⟩ := requested_sendTo hcrowds.accepts
      rw [Plan.await_eq plan deadline n, ← hsame, hjudge]
      dsimp only
      rw [if_neg (by omega), hsent']
      refine ih (hcrowds.request_both hrequested' hrequested) ?_
      have hnow' := hrequested'.now
      omega

end Rendezvous

end Framecast
