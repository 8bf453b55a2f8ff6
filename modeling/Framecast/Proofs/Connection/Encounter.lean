/-
A viewer calls a host that waits.

The viewer greets the host once and sends its challenge.  When the greeting arrives the host
sends its own, and from then on both ends are on their way, with one datagram at most lost or to
be lost between them.  So both connections stand before long, unless it is the greeting that is
lost: the viewer does not send it again, and the host passes over everything else.
-/
import Framecast.Proofs.Connection.Calls
import Framecast.Proofs.Connection.Losses

namespace Framecast

open Authentication (Side End Progress resendInterval challenge sentSince)
open Transit (GoneOn carried_one carried_alone)

namespace Connection

variable {n : Network} {meeting : Configuration.Meeting} {role : Role} {peer : Endpoint}

/-! ### Entering the handshake -/

/-- An end that is about to enter the handshake. -/
def entering (role : Role) (peer : Endpoint) (meeting : Configuration.Meeting) (n : Network) :
    End :=
  { connection := established role peer meeting n.now
    timeout := meeting.setupTimeout
    origin := n
    network := n }

theorem goneOn_entering (h : n.Able) : GoneOn (entering role peer meeting n)
    (entering role peer meeting n).start := by
  obtain ⟨hkey, horigin, htimeout⟩ := (entering role peer meeting n).start_same
  have hfresh : (entering role peer meeting n).Fresh := ⟨rfl, rfl, rfl, h.accepts⟩
  exact ⟨hkey, horigin, htimeout, (Authentication.Follows.fresh hfresh).start⟩

/-- The handshake opens with a challenge. -/
theorem opening_of_able (h : n.Able) : ∃ nonce k, Authentication.opening n = (.ok nonce, k) ∧
    nonce.length = Authentication.nonceSize ∧ k.Accepts ∧ n.Sends [challenge nonce] k ∧
      k.now = n.now := by
  have hcheck := setReadTimeout_of_faults h.faults
  rcases n.draw_cases Authentication.nonceSize with hnone | ⟨nonce, random, hdraw, hlength⟩
  · have hdraws := h.draws
    rw [hnone] at hdraws
    cases hdraws
  · have hdrawn :
        Network.drawBytes Authentication.nonceSize n = (.ok nonce, { n with random }) := by
      rw [Network.drawBytes, hdraw]
    have haccepts : Network.Accepts { n with random } := h.accepts
    obtain ⟨k, hsend, hk, hsends⟩ := haccepts.send (challenge nonce)
    refine ⟨nonce, k, ?_, hlength, hk, hsends.after rfl, (Authentication.send_eq_ok hsend).2.2⟩
    exact (Action.bind_of_ok hcheck).trans
      ((Action.bind_of_ok hdrawn).trans (Action.bind_of_ok hsend))

/-- What an end has done that has entered the handshake. -/
structure Entered (e : End) (n : Network) (due : Int) : Prop where
  alive : e.Alive due {}
  sent : sentSince n e.network = [challenge e.nonce]
  sends : n.Sends [challenge e.nonce] e.network
  now : e.network.now = n.now

theorem entered (h : n.Able) (hreads : 0 < meeting.readTimeout) {due : Int}
    (hdue : due ≤ n.now + (meeting.setupTimeout : Int)) (hnow : n.now < due) :
    Entered (entering role peer meeting n).start n due := by
  obtain ⟨nonce, k, hopening, hlength, hk, hsends, hsame⟩ := opening_of_able h
  have hstart : (entering role peer meeting n).start = _ := End.start_of_ok rfl hopening
  have halive : (entering role peer meeting n).start.Alive due {} := by
    rw [hstart]
    refine ⟨hk, hlength, hreads, End.stage_of_settle ?_ ?_⟩
    · rw [hsame]
      exact hdue
    · rw [hsame]
      exact hnow
  have hnow' : (entering role peer meeting n).start.network.now = n.now := by
    rw [hstart]
    exact hsame
  refine ⟨halive, ?_, ?_, hnow'⟩
  · rw [hstart]
    exact hsends.sent
  · rw [hstart]
    exact hsends

end Connection

open Connection

/-- A host that waits for a call, and a viewer that calls it then. -/
structure Encounter where
  /-- The endpoint that the host waits at. -/
  listen : Endpoint
  /-- The host as the viewer calls it. -/
  host : Endpoint
  /-- The viewer as the host sees it. -/
  caller : Endpoint
  hosting : Configuration.Meeting
  viewing : Configuration.Meeting
  /-- The network of the host when it begins to wait. -/
  waiting : Network
  /-- The network of the viewer when it calls. -/
  calling : Network
  waiting_able : waiting.Able
  calling_able : calling.Able
  after_waiting : waiting.now ≤ calling.now
  same_key : viewing.key = hosting.key
  hosting_lasts : 10 * resendInterval ≤ hosting.setupTimeout
  viewing_lasts : 10 * resendInterval ≤ viewing.setupTimeout
  hosting_reads : 0 < hosting.readTimeout
  viewing_reads : 0 < viewing.readTimeout

namespace Encounter

/-- What the host hears when the greeting arrives. -/
def greeted (c : Encounter) (due : Int) : Event :=
  greeting c.caller (due - c.waiting.now).toNat

/-- The end of the viewer once it has called. -/
def viewer (c : Encounter) : End :=
  (entering .client c.host c.viewing (dialed c.calling c.host)).start

/-- The network of the host once the greeting has arrived. -/
def picked (c : Encounter) (due : Int) : Network :=
  pickedUp c.waiting c.listen c.caller (due - c.waiting.now).toNat

/-- The end of the host once the greeting has arrived. -/
def answering (c : Encounter) (due : Int) : End :=
  (entering .server c.caller c.hosting (c.picked due)).start

/-- The greeting arrives while the host waits, and then the two ends are in this state.  One of
the datagrams that were sent until then may have been lost, but not the greeting. -/
inductive Greeted (c : Encounter) (due : Int) : Transit → Prop
  | arrives {rest queue : List Flight} {mayLose still : Bool}
      (hcalled : Carried c.calling.now (sentSince c.calling c.viewer.network) [] true
        (⟨[], due⟩ :: rest) mayLose)
      (hwaits : due < c.waiting.now + (c.hosting.setupTimeout : Int))
      (hanswers : Carried due (sentSince (c.picked due) (c.answering due).network) [] mayLose
        queue still) :
      Greeted c due
        { ends := Side.left.pick c.viewer (c.answering due)
          underWay := Side.left.pick queue rest
          mayLose := still }

/-- Both calls succeed on what the two ends have heard, whatever else they are to hear. -/
def Connected (c : Encounter) (due : Int) (s : Transit) : Prop :=
  ∀ later,
    (∃ now, (accept c.listen c.hosting
        (c.waiting.hearing (c.greeted due :: ((s.ends .right).heard ++ later)))).1 =
      .ok (established .server c.caller c.hosting now)) ∧
    ∃ now, (connect c.host c.viewing (c.calling.hearing ((s.ends .left).heard ++ later))).1 =
      .ok (established .client c.host c.viewing now)

variable {c : Encounter} {due : Int} {rest queue : List Flight} {mayLose still : Bool}

/-- What became of the challenge of the viewer if its greeting was not lost. -/
theorem carried_greeting {now : Int} {nonce : Bytes}
    (h : Carried now [[], challenge nonce] [] true (⟨[], due⟩ :: rest) mayLose) :
    (now ≤ due ∧ due < now + (resendInterval : Int)) ∧
      (∀ f ∈ rest, f.datagram = challenge nonce ∧ due ≤ f.due ∧
        f.due < now + (resendInterval : Int)) ∧
      rest.Pairwise (·.due ≤ ·.due) ∧ (rest ≠ [] ∧ mayLose = true ∨ mayLose = false) := by
  generalize hqueue : (⟨[], due⟩ :: rest : List Flight) = queue at h
  cases h with
  | @send _ _ _ _ _ _ first hdue hlate horder hlater =>
    rcases carried_one hlater with ⟨later, -, hlate', horder', hafter, hstill⟩ | ⟨-, hafter, hstill⟩
    · rw [hafter, List.nil_append, List.singleton_append, List.cons.injEq, Flight.mk.injEq]
        at hqueue
      obtain ⟨⟨-, rfl⟩, rfl⟩ := hqueue
      refine ⟨⟨hdue, hlate⟩, fun f hf => ?_, List.pairwise_singleton ..,
        Or.inl ⟨List.cons_ne_nil _ _, hstill⟩⟩
      rw [List.mem_singleton.mp hf]
      exact ⟨rfl, horder' _ (List.mem_singleton_self _), hlate'⟩
    · rw [hafter, List.nil_append, List.cons.injEq, Flight.mk.injEq] at hqueue
      obtain ⟨⟨-, rfl⟩, rfl⟩ := hqueue
      exact ⟨⟨hdue, hlate⟩, fun f hf => absurd hf List.not_mem_nil, List.Pairwise.nil,
        Or.inr hstill⟩
  | lose hlater =>
    -- The challenge alone does not begin with the greeting.
    rcases carried_one hlater with ⟨later, -, -, -, hafter, -⟩ | ⟨hmay, -⟩
    · rw [hafter, List.nil_append, List.cons.injEq, Flight.mk.injEq] at hqueue
      exact absurd hqueue.1.1.symm (List.cons_ne_nil _ _)
    · cases hmay

theorem entered_viewer (c : Encounter) :
    Entered c.viewer (dialed c.calling c.host)
      (c.calling.now + 10 * (resendInterval : Int)) := by
  obtain ⟨-, hable, hnow, -⟩ := dial_of_able c.calling_able c.host
  have hlasts := c.viewing_lasts
  have hinterval : 0 < resendInterval := by decide
  refine entered hable c.viewing_reads ?_ ?_
  · rw [hnow]
    omega
  · rw [hnow]
    omega

theorem now_viewer (c : Encounter) : c.viewer.network.now = c.calling.now := by
  obtain ⟨-, -, hnow, -⟩ := dial_of_able c.calling_able c.host
  rw [c.entered_viewer.now, hnow]

/-- The viewer has sent its greeting and its challenge. -/
theorem sent_viewer (c : Encounter) :
    sentSince c.calling c.viewer.network = [[], challenge c.viewer.nonce] := by
  obtain ⟨-, -, -, hsends⟩ := dial_of_able c.calling_able c.host
  exact (hsends.trans c.entered_viewer.sends).sent

theorem able_picked (c : Encounter) (due : Int) : (c.picked due).Able :=
  able_pickedUp c.waiting_able _ _ _

theorem now_picked (h : c.calling.now ≤ due) : (c.picked due).now = due := by
  have hafter := c.after_waiting
  show c.waiting.now + ((due - c.waiting.now).toNat : Int) = due
  omega

theorem entered_answering (hdue : c.calling.now ≤ due)
    (hsoon : due < c.calling.now + (resendInterval : Int)) :
    Entered (c.answering due) (c.picked due)
      (c.calling.now + 10 * (resendInterval : Int)) := by
  have hnow := now_picked hdue
  have hlasts := c.hosting_lasts
  exact entered (c.able_picked due) c.hosting_reads (by omega) (by omega)

/-- **When the greeting has arrived, both ends are on their way.** -/
theorem Greeted.timely {s : Transit} (h : c.Greeted due s) :
    s.Timely c.calling.now due (fun _ => {}) ∧
      due < c.calling.now + 7 * (resendInterval : Int) := by
  obtain ⟨hcalled, hwaits, hanswers⟩ := h
  rename_i rest queue mayLose still
  rw [c.sent_viewer] at hcalled
  obtain ⟨⟨hdue, hsoon⟩, hrest, hrestOrder, hrestLost⟩ := carried_greeting hcalled
  have hviewer := c.entered_viewer
  have hhost := entered_answering hdue hsoon
  rw [hhost.sent] at hanswers
  obtain ⟨hqueue, hqueueOrder, hqueueLost⟩ := carried_alone hanswers
  have hkeys : (c.answering due).key = c.viewer.key := by
    rw [viewer, answering, (End.start_same _).1, (End.start_same _).1]
    exact c.same_key.symm
  refine ⟨Transit.timely_of_challenges (Side.both .left hviewer.alive hhost.alive)
    (Side.both .left hkeys hkeys.symm) (Side.both .left ?_ ?_) hsoon
    (Side.both .left hqueue fun f hf => ?_) (Side.both .left hqueueOrder hrestOrder) ?_, by omega⟩
  · show c.calling.now ≤ c.viewer.network.now ∧ c.viewer.network.now ≤ due
    rw [c.now_viewer]
    exact ⟨Int.le_refl _, hdue⟩
  · show c.calling.now ≤ (c.answering due).network.now ∧ (c.answering due).network.now ≤ due
    rw [hhost.now, now_picked hdue]
    exact ⟨hdue, Int.le_refl _⟩
  · obtain ⟨hmeans, hlater, hlate⟩ := hrest f hf
    exact ⟨hmeans, hlater, by omega⟩
  · -- If the challenge of the viewer was lost, the one of the host was not.
    rcases hrestLost with ⟨hne, hmay⟩ | hmay
    · rcases hqueueLost with ⟨hne', -⟩ | ⟨-, hstill⟩
      · exact Or.inl (Side.both .left hne' hne)
      · exact Or.inr ⟨hstill, .right, hne⟩
    · rcases hqueueLost with ⟨hne', hstill⟩ | ⟨hstill, -⟩
      · exact Or.inr ⟨hstill.trans hmay, .left, hne'⟩
      · rw [hmay] at hstill
        cases hstill

/-- The two ends as they enter the handshake. -/
def beginning (c : Encounter) (due : Int) : Side → End :=
  Side.left.pick (entering .client c.host c.viewing (dialed c.calling c.host))
    (entering .server c.caller c.hosting (c.picked due))

theorem Greeted.goneOn {s : Transit} (h : c.Greeted due s) (x : Side) :
    GoneOn (c.beginning due x) (s.ends x) := by
  obtain ⟨-, hable, -, -⟩ := dial_of_able c.calling_able c.host
  cases h with
  | arrives =>
    cases x with
    | left => exact goneOn_entering hable
    | right => exact goneOn_entering (c.able_picked due)

/-- **Once both ends have finished, both calls succeed.** -/
theorem connected_of_done {s : Transit} (hdone : s.Done c.calling.now)
    (hgone : ∀ x, GoneOn (c.beginning due x) (s.ends x)) : c.Connected due s := by
  have hrun {e e' : End} (hgone : GoneOn e e') (hfinished : e'.stage = .finished)
      (later : List Event) : (Authentication.run e.key e.timeout
        (e.origin.hearing (e'.heard ++ later))).1 = .ok () := by
    have hfollows := hgone.follows
    unfold Authentication.Follows at hfollows
    rw [hfinished] at hfollows
    have hok := hfollows later
    rwa [hgone.key, hgone.timeout, End.script, hgone.origin] at hok
  intro later
  have hlasts := c.hosting_lasts
  have hinterval : 0 < resendInterval := by decide
  constructor
  · rw [greeted, accept_of_greeting c.waiting_able _ _ (by omega)]
    exact finish_of_run (hrun (hgone .right) (hdone .right).1 later)
      (c.able_picked due).faults _ _
  · rw [connect_of_dialed c.calling_able]
    exact finish_of_run (hrun (hgone .left) (hdone .left).1 later)
      (dial_of_able c.calling_able c.host).2.1.faults _ _

/--
**A direct setup outlives the loss of any datagram but the greeting.**  A viewer calls a host
that waits, with the same key, both with ten intervals of time at least.

* If the greeting arrives while the host waits, then whatever the network does next, in order,
  each datagram in less than an interval and with one datagram lost at most, both ends finish
  within seven intervals and both calls succeed.
* The viewer greets once, whatever it hears.
* If no greeting reaches the host, the call is not accepted, whatever else reaches it.
-/
theorem setup_outlives_one_loss (c : Encounter) :
    (∀ due s, c.Greeted due s →
      s.Inevitable fun s => s.Done c.calling.now ∧ c.Connected due s) ∧
    (∀ script, (Network.timesSince greets c.calling
      (connect c.host c.viewing (c.calling.hearing script)).2).length ≤ 1) ∧
    ∀ script, (∀ e ∈ script, ¬ Event.Brings e []) → ∀ connection,
      (accept c.listen c.hosting (c.waiting.hearing script)).1 ≠ .ok connection := by
  refine ⟨fun due s hgreeted => ?_, fun script => ?_, fun script hnone connection => ?_⟩
  · obtain ⟨htimely, hsoon⟩ := hgreeted.timely
    have hgone := Transit.inevitable_done htimely hsoon hgreeted.goneOn
    exact hgone.mono fun s ⟨hdone, hgone⟩ =>
      ⟨hdone, connected_of_done hdone hgone⟩
  · have honce := greetsOnce_connect c.host c.viewing (c.calling.hearing script)
    have hsame : (c.calling.hearing script).times greets = c.calling.times greets := rfl
    rw [hsame] at honce
    rw [Network.timesSince, List.length_drop]
    omega
  · exact accept_ne_ok hnone c.listen c.hosting connection

/-! ### A lost challenge and a lost greeting -/

/-- A viewer that nobody answers gives up when its time is over, and has greeted once. -/
theorem connect_unanswered (c : Encounter) {count : Nat}
    (hlast : c.viewing.setupTimeout ≤ count * resendInterval)
    (hbefore : ∀ k < count, k * resendInterval < c.viewing.setupTimeout) :
    ∃ m, connect c.host c.viewing (c.calling.hearing []) = (.error .handshakeTimeout, m) ∧
      c.calling.Sends ([] :: List.replicate (count + 1) (challenge c.viewer.nonce)) m := by
  obtain ⟨-, hable, hnow, hsends⟩ := dial_of_able c.calling_able c.host
  obtain ⟨nonce, k, hopening, -, hk, hopened, hsame⟩ := opening_of_able hable
  have hnonce : c.viewer.nonce = nonce := by
    have hstart : c.viewer = _ := End.start_of_ok rfl hopening
    rw [hstart]
  have hblind : Authentication.opening ((dialed c.calling c.host).hearing []) =
      (.ok nonce, k.hearing []) := by
    rw [Authentication.blind_opening, hopening]
  have hnone : (k.hearing []).now = k.now := rfl
  obtain ⟨m, hexchange, hm⟩ := exchange_unanswered c.viewing.key nonce
    ((k.hearing []).now + (c.viewing.setupTimeout : Int)) count hk (by omega) fun j hj => by
      have := hbefore j hj
      omega
  refine ⟨m, ?_, ?_⟩
  · rw [connect_of_dialed c.calling_able]
    refine Action.bind_of_error ?_
    rw [Authentication.run_of_opening hblind, hexchange]
  · rw [hnonce]
    exact (hsends.trans hopened).trans hm

/-- An encounter with just enough time, in which the viewer calls one interval after the host
began to wait. -/
def hasty : Encounter where
  listen := .v4 .unspecified 9000
  host := .v4 .loopback 9000
  caller := .v4 .loopback 40000
  hosting := { key := .constant 7, setupTimeout := 10 * resendInterval }
  viewing := { key := .constant 7, setupTimeout := 10 * resendInterval }
  waiting := { random := .stepping 1 37 none }
  calling := { now := resendInterval, random := .stepping 0 37 none }
  waiting_able := ⟨fun _ hfate => absurd hfate List.not_mem_nil, rfl, rfl⟩
  calling_able := ⟨fun _ hfate => absurd hfate List.not_mem_nil, rfl, rfl⟩
  after_waiting := by decide
  same_key := rfl
  hosting_lasts := Nat.le_refl _
  viewing_lasts := Nat.le_refl _
  hosting_reads := by decide
  viewing_reads := by decide

/-- The greeting has arrived at once, and the viewer's first challenge is lost. -/
def unchallenged : Transit where
  ends := Side.left.pick hasty.viewer (hasty.answering resendInterval)
  underWay := Side.left.pick [⟨challenge (hasty.answering resendInterval).nonce, resendInterval⟩] []
  mayLose := false

theorem greeted_unchallenged : hasty.Greeted resendInterval unchallenged := by
  have hnow : hasty.calling.now ≤ resendInterval := Int.le_refl _
  have hhost := entered_answering hnow (by decide)
  have hcalled : Carried hasty.calling.now (sentSince hasty.calling hasty.viewer.network) [] true
      [⟨[], resendInterval⟩] false := by
    rw [sent_viewer]
    exact .send (Int.le_refl _) (by decide) (fun f hf => absurd hf List.not_mem_nil)
      (.lose (.nil _ _))
  have hanswers : Carried resendInterval
      (sentSince (hasty.picked resendInterval) (hasty.answering resendInterval).network) [] false
      [⟨challenge (hasty.answering resendInterval).nonce, resendInterval⟩] false := by
    rw [hhost.sent]
    exact .send (Int.le_refl _) (by decide) (fun f hf => absurd hf List.not_mem_nil) (.nil _ _)
  exact .arrives hcalled (by decide) hanswers

/-- A lost challenge is made up for. -/
theorem lost_challenge_is_made_up :
    hasty.Greeted resendInterval unchallenged ∧
      unchallenged.Inevitable fun s =>
        s.Done hasty.calling.now ∧ hasty.Connected resendInterval s :=
  ⟨greeted_unchallenged, (setup_outlives_one_loss hasty).1 _ _ greeted_unchallenged⟩

/-- What the host hears if the greeting is lost and every challenge arrives at once. -/
def ungreeted : List Event :=
  List.replicate 11 ⟨.datagram (challenge hasty.viewer.nonce) hasty.caller, resendInterval⟩

/-- The greeting is lost and nothing else.  The viewer has sent it and eleven challenges, and the
host has heard the challenges, and neither call succeeds. -/
theorem lost_greeting_defeats_setup :
    sentSince hasty.calling (connect hasty.host hasty.viewing hasty.calling).2 =
        [] :: List.replicate 11 (challenge hasty.viewer.nonce) ∧
      (connect hasty.host hasty.viewing hasty.calling).1 = .error .handshakeTimeout ∧
      ∀ connection, (accept hasty.listen hasty.hosting
        (hasty.waiting.hearing ungreeted)).1 ≠ .ok connection := by
  obtain ⟨m, hconnect, hsends⟩ := hasty.connect_unanswered (Nat.le_refl (10 * resendInterval))
    fun k hk => Nat.mul_lt_mul_of_pos_right hk (by decide)
  have hsame : hasty.calling.hearing [] = hasty.calling := rfl
  rw [hsame] at hconnect
  refine ⟨?_, ?_, fun connection => accept_ne_ok (fun e he => ?_) _ _ connection⟩
  · rw [hconnect]
    exact hsends.sent
  · rw [hconnect]
  · rw [List.eq_of_mem_replicate he]
    rintro ⟨sender, hbrings⟩
    cases hbrings

end Encounter

end Framecast
