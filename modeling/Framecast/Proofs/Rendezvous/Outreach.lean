/-
What a program does that is meant for a peer.

A connect chooses the peer, and what is sent on a connected socket goes to it; requests to
a rendezvous server, sleeps and refused sends do not.  `outreach` is what a trace tells of
the first kind.  Everything up to the answer of the rendezvous server leaves it alone, and
once a peer is connected the greeting and the handshake only add to it what they send.
-/
import Framecast.Connection.Setup
import Framecast.Proofs.Action

namespace Framecast

/-- Whether an effect is meant for a peer. -/
def Effect.isOutreach : Effect → Bool
  | .sent _ => true
  | .connected _ => true
  | _ => false

open Framecast.Action (leaves_pure leaves_fail leaves_read leaves_ofCheck leaves_drawBytes)

namespace Network

/-- What a program did so far that is meant for a peer, in order. -/
def outreach (n : Network) : List Effect :=
  (n.trace.toList.map Prod.snd).filter Effect.isOutreach

theorem outreach_note (n : Network) (e : Effect) :
    (n.note e).outreach = n.outreach ++ [e].filter Effect.isOutreach := by
  simp [outreach, note]

theorem outreach_receive (n : Network) (timeout capacity : Nat) :
    (n.receive timeout capacity).2.outreach = n.outreach := by
  unfold receive
  split <;> rfl

theorem outreach_sleep (n : Network) (span : Nat) : (n.sleep span).outreach = n.outreach := by
  unfold sleep
  split
  · rfl
  · exact (outreach_note n (.slept span)).trans (List.append_nil _)

/-- A send call adds its effect if it is accepted, and nothing if it is refused. -/
theorem outreach_attempt (n : Network) (e : Effect) :
    (n.attempt e).2.outreach = n.outreach ∨
      (n.attempt e).2.outreach = n.outreach ++ [e].filter Effect.isOutreach := by
  unfold attempt
  split
  · exact Or.inr (outreach_note n e)
  · exact Or.inr (outreach_note _ e)
  · exact Or.inl ((outreach_note _ _).trans (List.append_nil _))

theorem outreach_sendTo (n : Network) (destination : Endpoint) (d : Bytes) :
    (n.sendTo destination d).2.outreach = n.outreach := by
  rcases outreach_attempt n (.sentTo destination d) with h | h
  · exact h
  · exact h.trans (List.append_nil _)

theorem outreach_draw (n : Network) (size : Nat) : (n.draw size).2.outreach = n.outreach := by
  unfold draw
  cases n.random.draw? size <;> rfl

/-! ### Actions that only send -/

/-- The action is meant for the connected peer: all that it adds are datagrams sent. -/
def SendsOnly {α : Type} (x : Action Network α) : Prop :=
  ∀ n, ∃ sent : List Bytes, (x n).2.outreach = n.outreach ++ sent.map .sent

section SendsOnly

variable {α β : Type} {x : Action Network α} {f : α → Action Network β}

theorem sendsOnly_of_leaves (h : x.Leaves outreach) : SendsOnly x := fun n =>
  ⟨[], (h n).trans (List.append_nil _).symm⟩

theorem SendsOnly.bind (hx : SendsOnly x) (hf : ∀ a, SendsOnly (f a)) : SendsOnly (x >>= f) := by
  intro n
  obtain ⟨first, hfirst⟩ := hx n
  rw [Action.bind_apply]
  cases hrun : x n with
  | mk r m =>
    rw [hrun] at hfirst
    cases r with
    | error e => exact ⟨first, hfirst⟩
    | ok a =>
      obtain ⟨second, hsecond⟩ := hf a m
      refine ⟨first ++ second, ?_⟩
      rw [List.map_append, ← List.append_assoc, ← hfirst]
      exact hsecond

theorem sendsOnly_send (d : Bytes) : SendsOnly (.ofCall (·.send d)) := by
  intro n
  rw [Action.ofCall_snd]
  rcases outreach_attempt n (.sent d) with h | h
  · exact ⟨[], h.trans (List.append_nil _).symm⟩
  · exact ⟨[d], h⟩

end SendsOnly

end Network

/-! ### The handshake -/

namespace Authentication

open Network

variable (key : Key) (nonce : Bytes)

theorem sendsOnly_afterError (p : Progress) (errno : Errno) :
    SendsOnly (afterError nonce p errno) := by
  unfold afterError
  split
  · split
    · exact sendsOnly_of_leaves (leaves_pure _ p)
    · exact (sendsOnly_send _).bind fun _ => sendsOnly_of_leaves (leaves_pure _ p)
  · split
    · exact sendsOnly_of_leaves (leaves_pure _ p)
    · exact sendsOnly_of_leaves (leaves_fail _ _)

theorem sendsOnly_afterDatagram (p : Progress) (d : Bytes) :
    SendsOnly (afterDatagram key nonce p d) := by
  unfold afterDatagram
  split
  · exact (sendsOnly_send _).bind fun _ => sendsOnly_of_leaves (leaves_pure _ _)
  · split
    · exact sendsOnly_of_leaves (leaves_pure _ _)
    · exact sendsOnly_of_leaves (leaves_fail _ _)
  · exact sendsOnly_of_leaves (leaves_pure _ p)

theorem sendsOnly_step (p : Progress) : SendsOnly (step key nonce p) := by
  intro n
  have hreceive := outreach_receive n resendInterval capacity
  unfold step
  cases hrun : n.receive resendInterval capacity with
  | mk outcome m =>
    rw [hrun] at hreceive
    rw [← hreceive]
    cases outcome with
    | error errno => exact sendsOnly_afterError nonce p errno m
    | ok arrival => exact sendsOnly_afterDatagram key nonce p arrival.1 m

/-- An exchange, by induction over its steps. -/
theorem sendsOnly_exchange (deadline : Int) (p : Progress) :
    SendsOnly (exchange key nonce deadline p) := by
  intro n
  fun_induction exchange key nonce deadline p n with
  | case1 p n hdone => exact ⟨[], (List.append_nil _).symm⟩
  | case2 p n hopen htime => exact ⟨[], (List.append_nil _).symm⟩
  | case3 p n hopen htime e m hstep =>
    have h := sendsOnly_step key nonce p n
    rwa [hstep] at h
  | case4 p n hopen htime q m hstep ih =>
    obtain ⟨first, hfirst⟩ := sendsOnly_step key nonce p n
    obtain ⟨second, hsecond⟩ := ih
    rw [hstep] at hfirst
    refine ⟨first ++ second, ?_⟩
    rw [List.map_append, ← List.append_assoc, ← hfirst]
    exact hsecond

theorem sendsOnly_run (timeout : Nat) : SendsOnly (run key timeout) :=
  (sendsOnly_of_leaves (leaves_ofCheck _ _)).bind fun _ =>
    (sendsOnly_of_leaves (leaves_drawBytes fun n => outreach_draw n _)).bind fun nonce =>
      (sendsOnly_send _).bind fun _ =>
        (sendsOnly_of_leaves (leaves_read _ _)).bind fun deadline =>
          sendsOnly_exchange key nonce deadline {}

end Authentication

/-! ### What follows a connect -/

open Network

/-- A greeting does what its send does. -/
theorem Rendezvous.greet_snd (n : Network) : (Rendezvous.greet n).2 = (n.send []).2 := by
  unfold Rendezvous.greet
  cases n.send [] with
  | mk r m =>
    cases r with
    | error errno =>
      dsimp only
      split <;> rfl
    | ok u => rfl

theorem Rendezvous.sendsOnly_greet : SendsOnly Rendezvous.greet := by
  intro n
  rw [Rendezvous.greet_snd]
  rcases outreach_attempt n (.sent []) with h | h
  · exact ⟨[], h.trans (List.append_nil _).symm⟩
  · exact ⟨[[]], h⟩

/-- To open a socket is to bind it, or to fail. -/
theorem Connection.leaves_openSocket {γ : Type} {view : Network → γ} {endpoint : Endpoint}
    (h : ∀ n, view (n.note (.bound endpoint)) = view n) : (openSocket endpoint).Leaves view :=
  (leaves_ofCheck _ _).bind fun _ => Action.leaves_ofCall fun n => by
    unfold Network.bind Network.call
    split
    · rfl
    · exact h n

/-- To connect is to note it, or to fail. -/
theorem Connection.leaves_connect {γ : Type} {view : Network → γ} {peer : Endpoint}
    (h : ∀ n, view (n.note (.connected peer)) = view n) :
    (Action.ofCall (·.connect peer)).Leaves view :=
  Action.leaves_ofCall fun n => by
    unfold Network.connect Network.call
    split
    · rfl
    · exact h n

/-- To reach a peer is to connect, to send an empty datagram and to sleep. -/
theorem Rendezvous.leaves_reach {γ : Type} {view : Network → γ} {peer : Endpoint}
    (hconnect : ∀ n, view (n.note (.connected peer)) = view n)
    (hsend : ∀ n, view (n.send []).2 = view n) (hsleep : ∀ n span, view (sleep n span) = view n) :
    (Rendezvous.reach peer).Leaves view :=
  (Connection.leaves_connect hconnect).bind fun _ =>
    Action.Leaves.bind (fun n => by rw [Rendezvous.greet_snd, hsend]) fun _ n =>
      hsleep n Rendezvous.settleTime

theorem Connection.sendsOnly_finish (role : Role) (peer : Endpoint)
    (meeting : Configuration.Meeting) : SendsOnly (Connection.finish role peer meeting) :=
  (Authentication.sendsOnly_run _ _).bind fun _ =>
    (sendsOnly_of_leaves (leaves_ofCheck _ _)).bind fun _ => sendsOnly_of_leaves (leaves_read _ _)

end Framecast
