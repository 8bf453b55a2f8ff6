/-
What comes before the handshake of a direct setup.

A viewer dials: it sends the host an empty datagram, once, and starts the handshake.  A host
that waits picks up when an empty datagram comes, and only then: whatever else comes is passed
over, a challenge as well, so that without the greeting it never answers.

Both leave what comes later to the handshake.  The `End` that enters it stands for the rest of
the program, and once it has finished the connection stands.
-/
import Framecast.Connection.Setup
import Framecast.Proofs.Authentication.Alive
import Framecast.Proofs.Rendezvous.Outreach

namespace Framecast

open Authentication (End Progress resendInterval)

namespace Network

/-- Nothing that a setup needs is refused. -/
structure Able (n : Network) : Prop where
  accepts : n.Accepts
  faults : n.faults = {}
  draws : (n.draw Authentication.nonceSize).1.isSome = true

theorem Able.of_eq {n m : Network} (h : n.Able) (houtbound : m.outbound = n.outbound)
    (hfaults : m.faults = n.faults) (hrandom : m.random = n.random) : m.Able where
  accepts := by
    unfold Accepts
    rw [houtbound]
    exact h.accepts
  faults := hfaults.trans h.faults
  draws := by
    have hdraws := h.draws
    unfold draw at hdraws ⊢
    rw [hrandom]
    split at hdraws <;> simp_all

end Network

namespace Connection

variable {n m k : Network} {host listen peer caller : Endpoint} {timeout delay : Nat}
  {meeting : Configuration.Meeting} {role : Role}

/-! ### The two ways in -/

/-- Connects to a host and greets it. -/
def dial (host : Endpoint) : Action Network Unit := do
  openSocket host.anyLike
  .ofCall (·.connect host)
  .ofCall (·.send [])

/-- Waits for a greeting. -/
def pickUp (listen : Endpoint) (timeout : Nat) : Action Network Endpoint := do
  openSocket listen
  .ofCheck Network.setReadTimeout
  let deadline ← .read fun n => n.now + (timeout : Int)
  awaitCaller timeout deadline

/-- Connects to a caller and makes the connection. -/
def answerCall (caller : Endpoint) (meeting : Configuration.Meeting) :
    Action Network Connection := do
  .ofCall (·.connect caller)
  finish .server caller meeting

theorem connect_eq (host : Endpoint) (meeting : Configuration.Meeting) :
    connect host meeting = dial host >>= fun _ => finish .client host meeting := by
  simp only [connect, dial, Action.bind_assoc]

theorem accept_eq (listen : Endpoint) (meeting : Configuration.Meeting) :
    accept listen meeting =
      pickUp listen meeting.setupTimeout >>= fun caller => answerCall caller meeting := by
  simp only [accept, pickUp, answerCall, Action.bind_assoc]
  rfl

/-! ### Where nothing is refused -/

theorem openSocket_of_faults (h : n.faults = {}) (endpoint : Endpoint) :
    openSocket endpoint n = (.ok (), n.note (.bound endpoint)) := by
  have hopen : n.openSocket = .ok () := by
    rw [Network.openSocket, h]
    rfl
  refine (Action.bind_of_ok (Action.ofCheck_of_ok hopen)).trans (Action.ofCall_of_ok ?_)
  simp only [Network.bind, Network.call, h]

theorem setReadTimeout_of_faults (h : n.faults = {}) :
    Action.ofCheck Network.setReadTimeout n = (.ok (), n) := by
  refine Action.ofCheck_of_ok ?_
  rw [Network.setReadTimeout, h]
  rfl

theorem connect_of_faults (h : n.faults = {}) (peer : Endpoint) :
    Action.ofCall (·.connect peer) n = (.ok (), n.note (.connected peer)) := by
  refine Action.ofCall_of_ok ?_
  simp only [Network.connect, Network.call, h]

/-- The network after dialing. -/
def dialed (n : Network) (host : Endpoint) : Network :=
  (Action.ofCall (·.send []) ((n.note (.bound host.anyLike)).note (.connected host))).2

/-- The network after a greeting came and its sender was connected. -/
def pickedUp (n : Network) (listen caller : Endpoint) (delay : Nat) : Network :=
  (((n.note (.bound listen)).returned [] delay).note (.connected caller))

/-- The greeting. -/
def greeting (caller : Endpoint) (delay : Nat) : Event :=
  ⟨.datagram [] caller, delay⟩

/-- **Dialing sends the greeting, takes no time and leaves what comes to the handshake.** -/
theorem dial_of_able (h : n.Able) (host : Endpoint) :
    (∀ later, dial host (n.hearing later) = (.ok (), (dialed n host).hearing later)) ∧
      (dialed n host).Able ∧ (dialed n host).now = n.now ∧ n.Sends [[]] (dialed n host) := by
  obtain ⟨k, hk⟩ : ∃ k, k = (n.note (.bound host.anyLike)).note (.connected host) := ⟨_, rfl⟩
  have hable : k.Able := by
    rw [hk]
    exact h.of_eq rfl rfl rfl
  obtain ⟨m, hsend, haccepts, hsends⟩ := hable.accepts.send []
  have hdialed : dialed n host = m := by
    rw [dialed, ← hk, hsend]
  have hm : m = (k.send []).2 :=
    (congrArg Prod.snd hsend).symm.trans (Action.ofCall_snd (fun n => n.send []) k)
  have hsteady : m.faults = k.faults ∧ m.random = k.random := by
    rw [hm]
    unfold Network.send Network.attempt
    split <;> exact ⟨rfl, rfl⟩
  obtain ⟨-, -, hnow⟩ := Authentication.send_eq_ok hsend
  rw [hdialed]
  refine ⟨fun later => ?_, ⟨haccepts, ?_, ?_⟩, ?_, ?_⟩
  · have hlater : (n.hearing later).Able := h.of_eq rfl rfl rfl
    have hopened : ((n.hearing later).note (.bound host.anyLike)).Able := h.of_eq rfl rfl rfl
    have hblind := Action.blind_send [] k later
    rw [hsend, hk] at hblind
    exact (Action.bind_of_ok (openSocket_of_faults hlater.faults _)).trans
      ((Action.bind_of_ok (connect_of_faults hopened.faults host)).trans hblind)
  · rw [hsteady.1, hable.faults]
  · have hdraws := hable.draws
    unfold Network.draw at hdraws ⊢
    rw [hsteady.2]
    split at hdraws <;> simp_all
  · rw [hnow, hk]
    rfl
  · have hbound : n.Sends [] (n.note (.bound host.anyLike)) :=
      Network.sends_of_other rfl fun d h => by cases h
    have hconnected : (n.note (.bound host.anyLike)).Sends [] k :=
      Network.sends_of_other (by rw [hk]; rfl) fun d h => by cases h
    exact (hbound.trans hconnected).trans hsends

/-- A wait ends with a greeting. -/
theorem awaitCaller_of_greeting {deadline : Int} {later : List Event} (htime : n.now < deadline)
    (hin : n.inbound = greeting caller delay :: later) :
    awaitCaller timeout deadline n = (.ok caller, n.returned later delay) := by
  have hreceive :
      n.receive timeout Sealed.maxSize = (.ok ([], caller), n.returned later delay) := by
    rw [Network.receive_eq, Network.next, hin]
    rfl
  rw [awaitCaller, if_neg (by omega)]
  split
  · rename_i hnone
    rw [hin] at hnone
    cases hnone
  · split
    · rename_i d sender m hm
      rw [hreceive] at hm
      cases hm
      rfl
    · rename_i errno m hm
      rw [hreceive] at hm
      cases hm

/-- **A greeting is picked up**, and what comes later is left to the handshake. -/
theorem accept_of_greeting (h : n.Able) (listen caller : Endpoint)
    (htime : 0 < meeting.setupTimeout) (delay : Nat) (later : List Event) :
    accept listen meeting (n.hearing (greeting caller delay :: later)) =
      finish .server caller meeting ((pickedUp n listen caller delay).hearing later) := by
  obtain ⟨script, hscript⟩ : ∃ script, script = greeting caller delay :: later := ⟨_, rfl⟩
  have hlater : (n.hearing script).Able := h.of_eq rfl rfl rfl
  have hopened : ((n.hearing script).note (.bound listen)).Able := h.of_eq rfl rfl rfl
  have hwait : awaitCaller meeting.setupTimeout (n.now + (meeting.setupTimeout : Int))
      ((n.hearing script).note (.bound listen)) =
        (.ok caller, ((n.note (.bound listen)).returned [] delay).hearing later) := by
    refine awaitCaller_of_greeting ?_ hscript
    show n.now < _
    omega
  have hpickUp : pickUp listen meeting.setupTimeout (n.hearing script) =
      (.ok caller, ((n.note (.bound listen)).returned [] delay).hearing later) :=
    (Action.bind_of_ok (openSocket_of_faults hlater.faults listen)).trans
      ((Action.bind_of_ok (setReadTimeout_of_faults hopened.faults)).trans hwait)
  have hreturned : Network.Able (((n.note (.bound listen)).returned [] delay).hearing later) :=
    h.of_eq rfl rfl rfl
  rw [← hscript, accept_eq, Action.bind_of_ok hpickUp]
  exact Action.bind_of_ok (connect_of_faults hreturned.faults caller)

theorem able_pickedUp (h : n.Able) (listen caller : Endpoint) (delay : Nat) :
    (pickedUp n listen caller delay).Able :=
  h.of_eq rfl rfl rfl

theorem connect_of_dialed (h : n.Able) (host : Endpoint) (meeting : Configuration.Meeting)
    (later : List Event) : connect host meeting (n.hearing later) =
      finish .client host meeting ((dialed n host).hearing later) := by
  rw [connect_eq]
  exact Action.bind_of_ok ((dial_of_able h host).1 later)

/-! ### Without a greeting -/

theorem brings_nil_of_outcome {e : Event} {d : Bytes} {sender : Endpoint}
    (h : e.outcome Sealed.maxSize = .ok (d, sender)) (hempty : d.isEmpty = true) :
    e.Brings [] := by
  obtain ⟨arrival, wait⟩ := e
  cases arrival with
  | datagram bytes sender' =>
    cases h
    have hcapacity : Sealed.maxSize ≠ 0 := by decide
    rw [List.isEmpty_iff, List.take_eq_nil_iff] at hempty
    exact ⟨sender, by rw [hempty.resolve_left hcapacity]⟩
  | failure errno => cases h
  | silence => cases h

/-- A wait that hears no greeting ends without a caller. -/
theorem awaitCaller_ne_ok {deadline : Int} (h : ∀ e ∈ n.inbound, ¬ e.Brings []) :
    (awaitCaller timeout deadline n).1 ≠ .ok peer := by
  fun_induction awaitCaller timeout deadline n with
  | case1 n hlate => nofun
  | case2 n hearly hnone => nofun
  | case3 n hearly e later hin d sender m hreceive hempty =>
    rw [Network.receive_eq, Network.next, hin, Prod.mk.injEq] at hreceive
    exact absurd (brings_nil_of_outcome hreceive.1 hempty) (h e (hin ▸ List.mem_cons_self ..))
  | case4 n hearly e later hin d sender m hreceive hfull ih =>
    refine ih fun e he => h e ?_
    have hinbound := n.inbound_receive timeout Sealed.maxSize
    rw [hreceive] at hinbound
    rw [hinbound] at he
    exact List.mem_of_mem_tail he
  | case5 n hearly e later hin errno m hreceive htimeout => nofun
  | case6 n hearly e later hin errno m hreceive hother => nofun

/-- **Without a greeting no call is accepted**, whatever else the viewer sends. -/
theorem accept_ne_ok (h : ∀ e ∈ n.inbound, ¬ e.Brings []) (listen : Endpoint)
    (meeting : Configuration.Meeting) (connection : Connection) :
    (accept listen meeting n).1 ≠ .ok connection := by
  intro hok
  have haccept : accept listen meeting n = (.ok connection, (accept listen meeting n).2) :=
    Prod.ext hok rfl
  rw [accept_eq] at haccept
  obtain ⟨caller, k, hpickUp, -⟩ := Action.bind_eq_ok haccept
  obtain ⟨u, k₁, hopen, hrest⟩ := Action.bind_eq_ok hpickUp
  obtain ⟨u', k₂, hcheck, hrest⟩ := Action.bind_eq_ok hrest
  obtain ⟨deadline, k₃, hread, hwait⟩ := Action.bind_eq_ok hrest
  have hopens : (openSocket listen).Leaves Network.inbound := leaves_openSocket fun _ => rfl
  have hopened := hopens n
  have hchecked := Action.leaves_ofCheck Network.inbound Network.setReadTimeout k₁
  rw [hopen] at hopened
  rw [hcheck] at hchecked
  cases hread
  have hinbound : k₂.inbound = n.inbound := hchecked.trans hopened
  refine awaitCaller_ne_ok (n := k₂) ?_ (congrArg Prod.fst hwait)
  rwa [hinbound]

/-! ### The greeting is sent once -/

/-- Whether the effect sends a greeting. -/
def greets (e : Effect) : Bool :=
  e = .sent []

/-- On every network the action greets one more time at most. -/
def GreetsOnce {α : Type} (x : Action Network α) : Prop :=
  ∀ n, ((x n).2.times greets).length ≤ (n.times greets).length + 1

section GreetsOnce

variable {α β : Type} {x : Action Network α} {f : α → Action Network β}

theorem GreetsOnce.after (hx : x.Leaves (Network.times greets)) (hf : ∀ a, GreetsOnce (f a)) :
    GreetsOnce (x >>= f) := by
  intro n
  have hsame := hx n
  rw [Action.bind_apply]
  cases hrun : x n with
  | mk r m =>
    rw [hrun] at hsame
    rw [← hsame]
    cases r with
    | error e => exact Nat.le_succ _
    | ok a => exact hf a m

theorem GreetsOnce.before (hx : GreetsOnce x) (hf : ∀ a, (f a).Leaves (Network.times greets)) :
    GreetsOnce (x >>= f) := by
  intro n
  have honce := hx n
  rw [Action.bind_apply]
  cases hrun : x n with
  | mk r m =>
    rw [hrun] at honce
    cases r with
    | error e => exact honce
    | ok a =>
      show ((f a m).2.times greets).length ≤ _
      rw [hf a m]
      exact honce

end GreetsOnce

theorem greetsOnce_send (d : Bytes) : GreetsOnce (.ofCall (·.send d)) := by
  intro n
  rw [Action.ofCall_snd]
  cases hsend : n.attempt (.sent d) with
  | mk r m =>
    have hm : (n.send d).2 = m := congrArg Prod.snd hsend
    rw [hm]
    cases r with
    | error errno =>
      rw [Network.times_attempt_of_error (fun _ => rfl) hsend]
      exact Nat.le_succ _
    | ok u =>
      rw [Network.times_attempt_of_ok hsend, List.length_append]
      split <;> simp

theorem steady_greets : Authentication.Steady (Network.times greets) where
  send n d hd := n.times_attempt_of_not (fun _ => rfl) (by simp [greets, hd])
  receive := Network.times_receive greets
  draw n size := by
    unfold Network.draw
    cases n.random.draw? size <;> rfl

/-- **A viewer greets once**, however long nobody answers. -/
theorem greetsOnce_connect (host : Endpoint) (meeting : Configuration.Meeting) :
    GreetsOnce (connect host meeting) := by
  have hopens : (openSocket host.anyLike).Leaves (Network.times greets) :=
    leaves_openSocket fun n => by simp [Network.times_note, greets]
  have hconnects : (Action.ofCall (·.connect host)).Leaves (Network.times greets) :=
    leaves_connect fun n => by simp [Network.times_note, greets]
  exact .after hopens fun _ => .after hconnects fun _ => (greetsOnce_send []).before fun _ =>
    (steady_greets.run _ _).bind fun _ => (Action.leaves_ofCheck _ _).bind fun _ =>
      Action.leaves_read _ _

/-! ### A viewer that nobody answers -/

/-- An exchange that hears nothing sends its challenge once in each interval until its time is
up. -/
theorem exchange_unanswered (key : Key) (nonce : Bytes) (deadline : Int) (count : Nat)
    (ha : n.Accepts) (hlast : deadline ≤ n.now + (count * resendInterval : Nat))
    (hbefore : ∀ k < count, n.now + (k * resendInterval : Nat) < deadline) :
    ∃ m, Authentication.exchange key nonce deadline {} (n.hearing []) =
        (.error .handshakeTimeout, m) ∧
      n.Sends (List.replicate count (Authentication.challenge nonce)) m := by
  induction count generalizing n with
  | zero =>
    rw [Nat.zero_mul] at hlast
    have hlate : deadline ≤ (n.hearing []).now := by
      show deadline ≤ n.now
      omega
    exact ⟨_, Authentication.exchange_of_late rfl hlate, .of_trace_eq rfl⟩
  | succ count ih =>
    -- After the end of a script comes silence.
    have hnext : (n.hearing []).next = .quiet := rfl
    obtain ⟨k, hstep, hk, hsends⟩ :=
      Authentication.step_of_silence key nonce {} (n := n.hearing []) ha rfl
    have hafter := Authentication.after_step key nonce {} (n.hearing [])
    rw [hstep] at hafter
    have hnow : k.now = n.now + (resendInterval : Int) := by
      rw [hafter.now, hnext, Event.span_quiet]
      rfl
    have hnone : k.hearing [] = k := by
      have hin : k.inbound = [] := hafter.inbound
      rw [Network.hearing, ← hin]
    have hopen := hbefore 0 (Nat.succ_pos count)
    rw [Nat.zero_mul] at hopen
    rw [Nat.succ_mul] at hlast
    obtain ⟨m, hexchange, hm⟩ := ih hk (by omega) fun j hj => by
      have hj' := hbefore (j + 1) (Nat.succ_lt_succ hj)
      rw [Nat.succ_mul] at hj'
      omega
    have hfirst : n.Sends [Authentication.challenge nonce] k := hsends.after rfl
    refine ⟨m, ?_, hfirst.trans hm⟩
    have hearly : (n.hearing []).now < deadline := by
      show n.now < deadline
      omega
    rw [Authentication.exchange_of_step rfl hearly hstep, ← hexchange, hnone]

/-! ### After the handshake -/

theorem steady_faults : Authentication.Steady Network.faults where
  send n d _ := by
    unfold Network.send Network.attempt
    split <;> rfl
  receive n timeout size := by
    rw [Network.receive_eq]
    rfl
  draw n size := by
    unfold Network.draw
    cases n.random.draw? size <;> rfl

/-- **The connection stands once the handshake has succeeded.** -/
theorem finish_of_run (hrun : (Authentication.run meeting.key meeting.setupTimeout n).1 = .ok ())
    (hfaults : n.faults = {}) (role : Role) (peer : Endpoint) :
    ∃ now, (finish role peer meeting n).1 = .ok (established role peer meeting now) := by
  have hsteady := steady_faults.run meeting.key meeting.setupTimeout n
  cases hcall : Authentication.run meeting.key meeting.setupTimeout n with
  | mk r m =>
    rw [hcall] at hrun hsteady
    cases hrun
    have hcheck := setReadTimeout_of_faults (hsteady.trans hfaults)
    refine ⟨m.now, ?_⟩
    have hfinish : finish role peer meeting n = (.ok (established role peer meeting m.now), m) :=
      (Action.bind_of_ok hcall).trans (Action.bind_of_ok hcheck)
    rw [hfinish]

end Connection

end Framecast
