/-
Two ends agree, whatever the network does between them.

The network brings an end what its peer has sent, as late, as often and in whatever order
it likes, or never.  `Abides` says of one end what it and its peer have sent by now: an end
only ever sends its challenge and the proof of its peer's challenge, it has sent that proof
exactly if it counts itself as having answered, and it takes its own challenge for proved
only if the peer has sent a proof of it under the same key, as far as keyed hashes tell.

So an end that finishes has been answered.  Its peer may miss the answer it is owed; it then
sends its challenge again, and the finished end answers.
-/
import Framecast.Proofs.Authentication.Ends

namespace Framecast.Authentication

/-! ### The network -/

/-- The two sides of a handshake. -/
inductive Side where
  | left
  | right
  deriving DecidableEq

def Side.other : Side → Side
  | left => right
  | right => left

@[simp] theorem Side.other_other (side : Side) : side.other.other = side := by
  cases side <;> rfl

theorem Side.other_ne (side : Side) : side.other ≠ side := by
  cases side <;> decide

theorem Side.eq_other_of_ne {x side : Side} (h : x ≠ side) : x = side.other := by
  cases x with
  | left =>
      cases side with
      | left => exact absurd rfl h
      | right => rfl
  | right =>
      cases side with
      | left => rfl
      | right => exact absurd rfl h

/-- Both ends. -/
abbrev Ends : Type := Side → End

/-- What the network may let an end hear: a datagram that its peer has sent, or one that
means nothing, or that no datagram came. -/
structure Carries (s : Ends) (side : Side) (event : Event) : Prop where
  harmless : event.Harmless
  sent : ∀ d, event.Brings d → d ∈ (s side.other).sent ∨ meaning d = .noise

/-- The event that brings a datagram at once. -/
def bringing (d : Bytes) : Event := ⟨.datagram d default, 0⟩

theorem brings_bringing (d : Bytes) : (bringing d).Brings d := ⟨default, rfl⟩

/-- The network may bring whatever the peer has sent. -/
theorem carries_bringing {s : Ends} {side : Side} {d : Bytes} (h : d ∈ (s side.other).sent) :
    Carries s side (bringing d) where
  harmless errno herrno := by cases herrno
  sent d' hbrings := by
    obtain ⟨sender, hdatagram⟩ := hbrings
    cases hdatagram
    exact Or.inl h

/-- Both ends after one of them has heard an event. -/
def deliver (s : Ends) (side : Side) (event : Event) : Ends :=
  Function.update s side ((s side).hear event)

/-- One end starts, or hears what the network carries. -/
inductive Move (s : Ends) : Ends → Prop
  | start (side : Side) : Move s (Function.update s side (s side).start)
  | hear (side : Side) {event : Event} (h : Carries s side event) : Move s (deliver s side event)

/-- What two ends may come to. -/
inductive Reachable (s : Ends) : Ends → Prop
  | refl : Reachable s s
  | move {t u : Ends} (h : Reachable s t) (hmove : Move t u) : Reachable s u

/-- A move keeps the keys. -/
theorem Move.key_eq {s t : Ends} (h : Move s t) (side : Side) : (t side).key = (s side).key := by
  cases h with
  | start moved =>
      by_cases hside : side = moved
      · subst hside
        rw [Function.update_self]
        exact (s side).start_same.1
      · rw [Function.update_of_ne hside]
  | @hear moved event =>
      by_cases hside : side = moved
      · subst hside
        rw [deliver, Function.update_self]
        exact ((s side).hear_same event).1
      · rw [deliver, Function.update_of_ne hside]

theorem Reachable.key_eq {s t : Ends} (h : Reachable s t) (side : Side) :
    (t side).key = (s side).key := by
  induction h with
  | refl => rfl
  | move _ hmove ih => exact (hmove.key_eq side).trans ih

/-! ### What an end and its peer have sent -/

/-- The peer `f` has proved the challenge of `e`. -/
structure Proved (e f : End) : Prop where
  sent : proof f.key e.nonce ∈ f.sent
  code_eq : code e.key e.nonce = code f.key e.nonce

/-- An end counts itself as having answered exactly if it sent a proof, and its challenge as
proved only if it is. -/
structure Knows (e f : End) (p : Progress) : Prop where
  answered : p.answered = true ↔ proof e.key f.nonce ∈ e.sent
  verified : p.verified = true → Proved e f

/-- What the stage of `e` says of what both have sent. -/
def Stands (e f : End) : Stage → Prop
  | .idle => e.sent = []
  | .exchanging _ p => e.sent ≠ [] ∧ Knows e f p
  | .finished => e.sent ≠ [] ∧ Knows e f { answered := true, verified := true }
  | .failed why =>
    (e.sent = [] ∧ why ≠ .proofRejected) ∨ why = .handshakeTimeout ∨
      (why = .proofRejected ∧ code e.key e.nonce ≠ code f.key e.nonce)

/-- What holds of an end `e` whose peer is `f`. -/
structure Abides (e f : End) : Prop where
  accepts : e.network.Accepts
  grows : e.origin.trace.toList <+: e.network.trace.toList
  sent : ∀ d ∈ e.sent, d = challenge e.nonce ∨ (d = proof e.key f.nonce ∧ f.sent ≠ [])
  challenged : e.sent ≠ [] → challenge e.nonce ∈ e.sent ∧ e.nonce.length = nonceSize
  stands : Stands e f e.stage

theorem challenge_ne_proof (nonce theirs : Bytes) (key : Key) :
    challenge nonce ≠ proof key theirs := by
  intro h
  exact absurd (List.head_eq_of_cons_eq h) (by decide)

section Next

variable {e e' f : End} {p : Progress} {out : List Bytes}

theorem Proved.next (h : Proved e f) (hkey : e'.key = e.key) (hnonce : e'.nonce = e.nonce) :
    Proved e' f where
  sent := by
    rw [hnonce]
    exact h.sent
  code_eq := by
    rw [hkey, hnonce]
    exact h.code_eq

/-- Sending something else than the proof changes nothing. -/
theorem Knows.next (h : Knows e f p) (hkey : e'.key = e.key) (hnonce : e'.nonce = e.nonce)
    (hsent : e'.sent = e.sent ++ out) (hout : proof e.key f.nonce ∉ out) : Knows e' f p where
  answered := by
    rw [h.answered, hkey, hsent, List.mem_append, or_iff_left hout]
  verified hverified := (h.verified hverified).next hkey hnonce

theorem Knows.answers (h : Knows e f p) (hkey : e'.key = e.key) (hnonce : e'.nonce = e.nonce)
    (hsent : e'.sent = e.sent ++ [proof e.key f.nonce]) :
    Knows e' f { p with answered := true } where
  answered := by
    rw [hkey, hsent]
    exact iff_of_true rfl (List.mem_append_right _ (List.mem_singleton_self _))
  verified hverified := (h.verified hverified).next hkey hnonce

theorem Knows.verifies (h : Knows e f p) (hproved : Proved e f) :
    Knows e f { p with verified := true } where
  answered := h.answered
  verified _ := hproved

theorem Stands.next {stage : Stage} (h : Stands e f stage) (hkey : e'.key = e.key)
    (hnonce : e'.nonce = e.nonce) (hsent : e'.sent = e.sent) : Stands e' f stage := by
  have hsame : e'.sent = e.sent ++ [] := by rw [hsent, List.append_nil]
  cases stage with
  | idle =>
      show e'.sent = []
      rw [hsent]
      exact h
  | exchanging deadline p =>
      exact ⟨by rw [hsent]; exact h.1, h.2.next hkey hnonce hsame (List.not_mem_nil)⟩
  | finished =>
      exact ⟨by rw [hsent]; exact h.1, h.2.next hkey hnonce hsame (List.not_mem_nil)⟩
  | failed why =>
      show (e'.sent = [] ∧ why ≠ .proofRejected) ∨ why = .handshakeTimeout ∨
        (why = .proofRejected ∧ code e'.key e'.nonce ≠ code f.key e'.nonce)
      rw [hsent, hkey, hnonce]
      exact h

end Next

theorem stands_settle {e f : End} {p : Progress} (hsent : e.sent ≠ []) (h : Knows e f p)
    (deadline now : Int) : Stands e f (settle deadline p now) := by
  cases hdone : p.isDone with
  | true =>
      obtain ⟨answered, verified⟩ := p
      rw [Progress.isDone, Bool.and_eq_true] at hdone
      obtain ⟨rfl, rfl⟩ := hdone
      rw [settle_of_done rfl]
      exact ⟨hsent, h⟩
  | false =>
      by_cases hlate : deadline ≤ now
      · rw [settle_of_late hdone hlate]
        exact Or.inr (Or.inl rfl)
      · rw [settle_of_open hdone (by omega)]
        exact ⟨hsent, h⟩

namespace Abides

variable {e f e' f' : End} {event : Event}

theorem fresh (h : e.Fresh) (f : End) : Abides e f := by
  have hnone : e.sent = [] := by
    rw [End.sent, h.network]
    exact (Network.Sends.refl e.origin).sent
  refine ⟨?_, ?_, ?_, fun hne => absurd hnone hne, ?_⟩
  · rw [h.network]
    exact h.accepts
  · have hgrown : e.origin.trace.toList <+: e.origin.trace.toList := List.prefix_refl _
    simpa only [h.network] using hgrown
  · intro d hd
    rw [hnone] at hd
    cases hd
  · rw [h.stage]
    exact hnone

theorem stands_at (h : Abides e f) {stage : Stage} (hstage : e.stage = stage) :
    Stands e f stage := by
  rw [← hstage]
  exact h.stands

/-- A proof that an end has sent is the answer to its peer's challenge. -/
theorem eq_of_proof_mem (h : Abides e f) {theirs : Bytes} (hmem : proof e.key theirs ∈ e.sent) :
    code e.key theirs = code e.key f.nonce ∧ f.sent ≠ [] := by
  rcases h.sent _ hmem with heq | ⟨heq, hne⟩
  · exact absurd heq.symm (challenge_ne_proof e.nonce theirs e.key)
  · exact ⟨List.tail_eq_of_cons_eq heq, hne⟩

/-! ### The peer goes on -/

/-- What an end knows stays right when its peer starts or sends more. -/
theorem peer (h : Abides e f) (hkey : f'.key = f.key) (hsent : f.sent ⊆ f'.sent)
    (hnonce : f.sent ≠ [] → f'.nonce = f.nonce) : Abides e f' where
  accepts := h.accepts
  grows := h.grows
  sent := by
    intro d hd
    rcases h.sent d hd with heq | ⟨heq, hne⟩
    · exact Or.inl heq
    · refine Or.inr ⟨by rw [hnonce hne, heq], ?_⟩
      exact fun hnil => hne (List.subset_nil.mp (hnil ▸ hsent))
  challenged := h.challenged
  stands := by
    have hproved (hp : Proved e f) : Proved e f' := by
      refine ⟨?_, ?_⟩
      · rw [hkey]
        exact hsent hp.sent
      · rw [hkey]
        exact hp.code_eq
    have hknows {p : Progress} (hp : Knows e f p) : Knows e f' p := by
      refine ⟨?_, fun hverified => hproved (hp.verified hverified)⟩
      by_cases hnil : f.sent = []
      · -- Before the peer has sent anything, no proof of any challenge can be out.
        have hnone (theirs : Bytes) : proof e.key theirs ∉ e.sent :=
          fun hmem => (h.eq_of_proof_mem hmem).2 hnil
        rw [hp.answered]
        exact iff_of_false (hnone _) (hnone _)
      · rw [hnonce hnil]
        exact hp.answered
    cases hstage : e.stage with
    | idle => exact h.stands_at hstage
    | exchanging deadline p =>
        obtain ⟨hne, hp⟩ := h.stands_at hstage
        exact ⟨hne, hknows hp⟩
    | finished =>
        obtain ⟨hne, hp⟩ := h.stands_at hstage
        exact ⟨hne, hknows hp⟩
    | failed why =>
        rcases h.stands_at hstage with hnone | htime | ⟨hrejected, hne⟩
        · exact Or.inl hnone
        · exact Or.inr (Or.inl htime)
        · exact Or.inr (Or.inr ⟨hrejected, by rw [hkey]; exact hne⟩)

/-! ### The end itself goes on -/

theorem sent_next (h : Abides e f) {out : List Bytes} (horigin : e'.origin = e.origin)
    (hsends : e.network.Sends out e'.network) :
    e'.origin.trace.toList <+: e'.network.trace.toList ∧ e'.sent = e.sent ++ out := by
  rw [End.sent, horigin]
  refine ⟨h.grows.trans hsends.grows, ?_⟩
  rw [Network.sentSince_trans h.grows hsends.grows, hsends.sent]
  rfl

theorem sent_of_idle (h : Abides e f) (hidle : e.stage = .idle) : e.sent = [] :=
  h.stands_at hidle

/-- Starting takes back nothing that an end has sent, nor the nonce it was sent under. -/
theorem sent_start (h : Abides e f) :
    e.sent ⊆ e.start.sent ∧ (e.sent ≠ [] → e.start.nonce = e.nonce) := by
  by_cases hidle : e.stage = .idle
  · rw [h.sent_of_idle hidle]
    exact ⟨List.nil_subset _, fun hne => absurd rfl hne⟩
  · rw [End.start_of_ne_idle hidle]
    exact ⟨List.Subset.refl _, fun _ => rfl⟩

theorem start (h : Abides e f) : Abides e.start f := by
  by_cases hidle : e.stage = .idle
  swap
  · rw [End.start_of_ne_idle hidle]
    exact h
  have hnone := h.sent_of_idle hidle
  obtain ⟨-, horigin, -⟩ := e.start_same
  obtain ⟨haccepts, ⟨hlength, ⟨deadline, now, hstage⟩, hsends⟩ | ⟨⟨why, hstage, hwhy⟩, hsends⟩⟩ :=
    End.start_cases h.accepts hidle
  · obtain ⟨hgrows, hsent⟩ := h.sent_next horigin hsends
    rw [hnone, List.nil_append] at hsent
    have hne : e.start.sent ≠ [] := by
      rw [hsent]
      exact List.cons_ne_nil _ _
    have hknows : Knows e.start f {} := by
      refine ⟨?_, fun hverified => Bool.noConfusion hverified⟩
      rw [hsent, List.mem_singleton]
      exact iff_of_false Bool.noConfusion fun heq => challenge_ne_proof _ _ _ heq.symm
    refine ⟨haccepts, hgrows, fun d hd => ?_, fun _ => ⟨?_, hlength⟩, ?_⟩
    · rw [hsent, List.mem_singleton] at hd
      exact Or.inl hd
    · rw [hsent]
      exact List.mem_singleton_self _
    · rw [hstage]
      exact stands_settle hne hknows deadline now
  · obtain ⟨hgrows, hsent⟩ := h.sent_next horigin hsends
    rw [hnone, List.nil_append] at hsent
    refine ⟨haccepts, hgrows, fun d hd => ?_, fun hne => absurd hsent hne, ?_⟩
    · rw [hsent] at hd
      cases hd
    · rw [hstage]
      exact Or.inl ⟨hsent, hwhy⟩

/-- A challenge that an end hears is its peer's. -/
theorem eq_of_brings_challenge (h' : Abides f e)
    (hcarries : ∀ d, event.Brings d → d ∈ f.sent ∨ meaning d = .noise) {theirs : Bytes}
    (hbrings : event.Brings (challenge theirs)) (hlength : theirs.length = nonceSize) :
    theirs = f.nonce ∧ f.sent ≠ [] := by
  have hmem : challenge theirs ∈ f.sent := by
    refine (hcarries _ hbrings).resolve_right ?_
    rw [meaning_eq_challenge.mpr ⟨rfl, hlength⟩]
    exact Meaning.noConfusion
  rcases h'.sent _ hmem with heq | ⟨heq, -⟩
  · exact ⟨List.tail_eq_of_cons_eq heq, List.ne_nil_of_mem hmem⟩
  · exact absurd heq (challenge_ne_proof theirs e.nonce f.key)

/-- A proof that an end hears is its peer's proof of its challenge. -/
theorem eq_of_brings_proof (h' : Abides f e)
    (hcarries : ∀ d, event.Brings d → d ∈ f.sent ∨ meaning d = .noise) {given : Bytes}
    (hbrings : event.Brings (proofTag :: given)) (hlength : given.length = codeSize) :
    given = code f.key e.nonce ∧ proof f.key e.nonce ∈ f.sent := by
  have hmem : proofTag :: given ∈ f.sent := by
    refine (hcarries _ hbrings).resolve_right ?_
    rw [meaning_eq_proof.mpr ⟨rfl, hlength⟩]
    exact Meaning.noConfusion
  rcases h'.sent _ hmem with heq | ⟨heq, -⟩
  · exact absurd (List.head_eq_of_cons_eq heq) (by decide)
  · exact ⟨List.tail_eq_of_cons_eq heq, heq ▸ hmem⟩

/-- What an end sends when it hears its peer, and where it stands then. -/
theorem stands_of_takes (h' : Abides f e) (haccepts : e.network.Accepts)
    (hharmless : event.Harmless)
    (hcarries : ∀ d, event.Brings d → d ∈ f.sent ∨ meaning d = .noise)
    {p : Progress} {r : Except Failure Progress} {out : List Bytes} (hne : e.sent ≠ [])
    (hknows : Knows e f p) (htakes : Takes e.key e.nonce p (e.network.hearing [event]) r out)
    (hkey : e'.key = e.key) (hnonce : e'.nonce = e.nonce) (hsent : e'.sent = e.sent ++ out)
    (deadline now : Int) :
    (∀ d ∈ out, d = challenge e.nonce ∨ (d = proof e.key f.nonce ∧ f.sent ≠ [])) ∧
      Stands e' f (outcome deadline now r) := by
  have hne' : e'.sent ≠ [] := by
    rw [hsent]
    exact List.append_ne_nil_of_left_ne_nil hne out
  cases htakes with
  | waits | ignores =>
      refine ⟨fun d hd => ?_, stands_settle hne' ?_ deadline now⟩
      · cases hd
      · exact hknows.next hkey hnonce hsent (List.not_mem_nil)
  | again =>
      refine ⟨fun d hd => Or.inl (List.mem_singleton.mp hd), stands_settle hne' ?_ deadline now⟩
      refine hknows.next hkey hnonce hsent fun hmem => ?_
      exact challenge_ne_proof _ _ _ (List.mem_singleton.mp hmem).symm
  | @answers theirs hbrings hlength =>
      obtain ⟨rfl, hpeer⟩ :=
        h'.eq_of_brings_challenge hcarries (Event.brings_iff.mpr hbrings) hlength
      refine ⟨fun d hd => Or.inr ⟨List.mem_singleton.mp hd, hpeer⟩, ?_⟩
      exact stands_settle hne' (hknows.answers hkey hnonce hsent) deadline now
  | verifies hbrings =>
      obtain ⟨hcode, hmem⟩ := h'.eq_of_brings_proof hcarries (Event.brings_iff.mpr hbrings)
        (length_code e.key e.nonce)
      refine ⟨fun d hd => ?_, stands_settle hne' ?_ deadline now⟩
      · cases hd
      · exact (hknows.verifies ⟨hmem, hcode⟩).next hkey hnonce hsent (List.not_mem_nil)
  | rejects hbrings hlength hwrong =>
      obtain ⟨rfl, -⟩ := h'.eq_of_brings_proof hcarries (Event.brings_iff.mpr hbrings) hlength
      refine ⟨fun d hd => ?_, Or.inr (Or.inr ⟨rfl, ?_⟩)⟩
      · cases hd
      · rw [hkey, hnonce]
        exact fun heq => hwrong heq.symm
  | breaks hfails hlasting => exact absurd (hharmless _ hfails) hlasting
  | refused hrefuses => exact absurd haccepts hrefuses

/-- **Hearing the peer keeps it.** -/
theorem hear (h : Abides e f) (h' : Abides f e) (hharmless : event.Harmless)
    (hcarries : ∀ d, event.Brings d → d ∈ f.sent ∨ meaning d = .noise) :
    Abides (e.hear event) f := by
  obtain ⟨out, hreacts, haccepts, hsends⟩ := e.hear_reacts event h.accepts
  obtain ⟨hkey, hnonce, horigin, -⟩ := e.hear_same event
  obtain ⟨hgrows, hsent⟩ := h.sent_next horigin hsends
  suffices hnext : (∀ d ∈ out, d = challenge e.nonce ∨ (d = proof e.key f.nonce ∧ f.sent ≠ [])) ∧
      (out ≠ [] → e.sent ≠ []) ∧ Stands (e.hear event) f (e.hear event).stage by
    obtain ⟨hout, hstarted, hstage⟩ := hnext
    refine ⟨haccepts, hgrows, fun d hd => ?_, fun hne => ?_, hstage⟩
    · rw [hkey, hnonce]
      rw [hsent, List.mem_append] at hd
      rcases hd with hold | hnew
      · exact h.sent d hold
      · exact hout d hnew
    · have hold : e.sent ≠ [] := by
        intro hnil
        rw [hsent, hnil, List.nil_append] at hne
        exact hstarted hne hnil
      obtain ⟨hmem, hlength⟩ := h.challenged hold
      rw [hnonce, hsent]
      exact ⟨List.mem_append_left _ hmem, hlength⟩
  generalize hstage : (e.hear event).stage = stage at hreacts
  cases hreacts with
  | nothing =>
      rw [List.append_nil] at hsent
      refine ⟨fun d hd => ?_, fun hne => absurd rfl hne, h.stands.next hkey hnonce hsent⟩
      cases hd
  | exchanges hbefore htakes =>
      obtain ⟨hne, hknows⟩ := h.stands_at hbefore
      obtain ⟨hout, hafter⟩ := h'.stands_of_takes h.accepts hharmless hcarries hne hknows htakes
        hkey hnonce hsent _ _
      exact ⟨hout, fun _ => hne, hafter⟩
  | answers hbefore hbrings hlength =>
      obtain ⟨hne, hknows⟩ := h.stands_at hbefore
      obtain ⟨rfl, hpeer⟩ := h'.eq_of_brings_challenge hcarries hbrings hlength
      refine ⟨fun d hd => Or.inr ⟨List.mem_singleton.mp hd, hpeer⟩, fun _ => hne, ?_⟩
      exact ⟨by rw [hsent]; exact List.append_ne_nil_of_left_ne_nil hne _,
        hknows.answers hkey hnonce hsent⟩

end Abides

/-! ### Every reachable state -/

/-- Each end is where its program is, and abides by what the two have sent. -/
def Agreed (s : Ends) : Prop :=
  ∀ side, Abides (s side) (s side.other) ∧ Follows (s side)

variable {s t : Ends}

theorem Agreed.abides_other (h : Agreed s) (side : Side) : Abides (s side.other) (s side) := by
  have hpeer := (h side.other).1
  rwa [Side.other_other] at hpeer

/-- One of the ends goes on. -/
theorem Agreed.update (h : Agreed s) (side : Side) {e : End} (hend : Abides e (s side.other))
    (hpeer : Abides (s side.other) e) (hfollows : Follows e) :
    Agreed (Function.update s side e) := by
  intro x
  by_cases hx : x = side
  · subst hx
    rw [Function.update_self, Function.update_of_ne x.other_ne]
    exact ⟨hend, hfollows⟩
  · obtain rfl := Side.eq_other_of_ne hx
    rw [Function.update_of_ne side.other_ne, Side.other_other, Function.update_self]
    exact ⟨hpeer, (h side.other).2⟩

theorem Agreed.move (h : Agreed s) (hmove : Move s t) : Agreed t := by
  cases hmove with
  | start side =>
      obtain ⟨hend, hfollows⟩ := h side
      have hpeer := h.abides_other side
      obtain ⟨hsent, hnonce⟩ := hend.sent_start
      exact h.update side hend.start (hpeer.peer (s side).start_same.1 hsent hnonce)
        hfollows.start
  | @hear side event hcarries =>
      obtain ⟨hend, hfollows⟩ := h side
      have hpeer := h.abides_other side
      obtain ⟨hkey, hnonce, horigin, -⟩ := (s side).hear_same event
      refine h.update side (hend.hear hpeer hcarries.harmless hcarries.sent)
        (hpeer.peer hkey ?_ fun _ => hnonce) (hfollows.hear event)
      obtain ⟨out, -, -, hsends⟩ := (s side).hear_reacts event hend.accepts
      rw [(hend.sent_next horigin hsends).2]
      exact List.subset_append_left _ _

/-- **In every reachable state each end abides by what both have sent.** -/
theorem agreed_of_reachable {start : Ends} (hfresh : ∀ side, (start side).Fresh)
    (h : Reachable start s) : Agreed s := by
  induction h with
  | refl => exact fun side => ⟨.fresh (hfresh side) _, .fresh (hfresh side)⟩
  | move _ hmove ih => exact ih.move hmove

/-! ### Agreement -/

/-- The other end has finished, and this one waits for nothing but the proof it is owed: its
challenge gets it that proof, and the proof gets it to the end. -/
structure Completable (s : Ends) (side : Side) : Prop where
  waits : ∃ deadline, (s side).stage = .exchanging deadline { answered := true }
  asked : challenge (s side).nonce ∈ (s side).sent
  /-- Whenever it hears nothing it sends its challenge again. -/
  asks (delay : Nat) :
    ((s side).hear ⟨.silence, delay⟩).sent = (s side).sent ++ [challenge (s side).nonce]
  /-- The finished end answers the challenge. -/
  answered {event : Event} (h : event.Brings (challenge (s side).nonce)) :
    (deliver s side.other event side.other).sent =
      (s side.other).sent ++ [proof (s side.other).key (s side).nonce]
  completes {event reply : Event} (h : event.Brings (challenge (s side).nonce))
    (hreply : reply.Brings (proof (s side.other).key (s side).nonce)) :
    (deliver (deliver s side.other event) side reply side).stage = .finished

/-- The network can do what completes an end. -/
theorem Completable.reaches_finished {side : Side} (h : Completable s side) :
    ∃ t, Reachable s t ∧ (t side).stage = .finished := by
  have hask := brings_bringing (challenge (s side).nonce)
  have hreply := brings_bringing (proof (s side.other).key (s side).nonce)
  have hcarries : Carries s side.other (bringing (challenge (s side).nonce)) := by
    refine carries_bringing ?_
    rw [Side.other_other]
    exact h.asked
  have hasked := Reachable.refl.move (.hear side.other hcarries)
  refine ⟨_, hasked.move (.hear side (carries_bringing ?_)), h.completes hask hreply⟩
  rw [h.answered hask]
  exact List.mem_append_right _ (List.mem_singleton_self _)

namespace Agreed

variable {side : Side}

/-- The challenge of an end that is exchanging is out. -/
theorem challenge_mem (h : Agreed s) {deadline : Int} {p : Progress}
    (hstage : (s side).stage = .exchanging deadline p) :
    challenge (s side).nonce ∈ (s side).sent := by
  obtain ⟨hend, -⟩ := h side
  obtain ⟨hsent, -⟩ := hend.stands_at hstage
  exact (hend.challenged hsent).1

/-- The proof of an end that has answered is out. -/
theorem proof_mem (h : Agreed s) {deadline : Int} {p : Progress}
    (hstage : (s side).stage = .exchanging deadline p) (hanswered : p.answered = true) :
    proof (s side).key (s side.other).nonce ∈ (s side).sent := by
  obtain ⟨-, hknows⟩ := (h side).1.stands_at hstage
  exact hknows.answered.mp hanswered

/-- A finished end has been proved right. -/
theorem proved (h : Agreed s) (hstage : (s side).stage = .finished) :
    Proved (s side) (s side.other) := by
  obtain ⟨-, hknows⟩ := (h side).1.stands_at hstage
  exact hknows.verified rfl

theorem not_rejected (h : Agreed s) (hkeys : (s side).key = (s side.other).key) :
    (s side).stage ≠ .failed .proofRejected := by
  intro hstage
  rcases (h side).1.stands_at hstage with ⟨-, hother⟩ | htime | ⟨-, hne⟩
  · exact hother rfl
  · cases htime
  · exact hne (by rw [hkeys])

/-- An end that waits for its proof gets it from a finished one. -/
theorem completable (h : Agreed s) (hkeys : (s side).key = (s side.other).key)
    (hfinished : (s side.other).stage = .finished) {deadline : Int}
    (hstage : (s side).stage = .exchanging deadline { answered := true }) :
    Completable s side := by
  obtain ⟨hend, -⟩ := h side
  have hasked := h.challenge_mem hstage
  obtain ⟨-, hlength⟩ := hend.challenged (List.ne_nil_of_mem hasked)
  have hwaits (event : Event) :
      deliver s side.other event side = s side :=
    Function.update_of_ne side.other_ne.symm _ _
  refine ⟨⟨deadline, hstage⟩, hasked, fun delay => ?_, fun hbrings => ?_, fun hbrings hreply => ?_⟩
  · obtain ⟨-, -, horigin, -⟩ := (s side).hear_same ⟨.silence, delay⟩
    exact (hend.sent_next horigin (End.hear_silence hend.accepts hstage rfl delay)).2
  · rw [deliver, Function.update_self]
    obtain ⟨-, -, horigin, -⟩ := (s side.other).hear_same _
    have hpeer := h.abides_other side
    exact (hpeer.sent_next horigin
      (End.hear_challenge hpeer.accepts hfinished hbrings hlength)).2
  · rw [deliver, Function.update_self, hwaits]
    rw [← hkeys] at hreply
    exact End.hear_proof hstage hreply

/-- **The peer of a finished end has answered it**, and has finished, run out of time or can
be completed. -/
theorem peer_of_finished (h : Agreed s) (hkeys : (s side).key = (s side.other).key)
    (hfinished : (s side).stage = .finished) :
    (s side.other).stage = .finished ∨ (s side.other).stage = .failed .handshakeTimeout ∨
      Completable s side.other := by
  have hproof := (h.proved hfinished).sent
  have hsent : (s side.other).sent ≠ [] := List.ne_nil_of_mem hproof
  have hfollows := (h side.other).2
  cases hstage : (s side.other).stage with
  | idle => exact absurd ((h.abides_other side).sent_of_idle hstage) hsent
  | finished => exact Or.inl rfl
  | failed why =>
      refine Or.inr (Or.inl ?_)
      rcases (h.abides_other side).stands_at hstage with ⟨hnone, -⟩ | rfl | ⟨-, hne⟩
      · exact absurd hnone hsent
      · rfl
      · exact absurd (by rw [hkeys]) hne
  | exchanging deadline p =>
      refine Or.inr (Or.inr ?_)
      obtain ⟨-, hknows⟩ := (h.abides_other side).stands_at hstage
      unfold Follows at hfollows
      rw [hstage] at hfollows
      obtain ⟨hopen, -, -⟩ := hfollows
      -- It has answered and is not done, so it is the proof that it lacks.
      have hwaits : p = { answered := true } := by
        obtain ⟨answered, verified⟩ := p
        have hanswered : answered = true := hknows.answered.mpr hproof
        rw [hanswered] at hopen ⊢
        have hverified : verified = false := hopen
        rw [hverified]
      rw [hwaits] at hstage
      refine h.completable ?_ ?_ hstage
      · rw [Side.other_other]
        exact hkeys.symm
      · rw [Side.other_other]
        exact hfinished

end Agreed

/-- **Both ends agree.**  In every state that two ends can come to over a network that
delivers to each only what the other has sent, lost, late, twice and out of order as it may be:

  * under one key no end rejects a proof, and the peer of a finished end has answered it and,
    unless its time is up, has finished too or completes with one more challenge and reply;
  * under keys that tell an end's challenge apart that end never finishes;
  * each end is where the program is that hears the same. -/
theorem ends_agree {start : Ends} (hfresh : ∀ side, (start side).Fresh)
    (h : Reachable start s) :
    ((s .left).key = (s .right).key → ∀ side,
      (s side).stage ≠ .failed .proofRejected ∧
        ((s side).stage = .finished →
          proof (s side.other).key (s side).nonce ∈ (s side.other).sent ∧
            ((s side.other).stage = .finished ∨
              (s side.other).stage = .failed .handshakeTimeout ∨ Completable s side.other))) ∧
      (∀ side, code (s side).key (s side).nonce ≠ code (s side.other).key (s side).nonce →
        (s side).stage ≠ .finished) ∧
      ∀ side, Follows (s side) := by
  have hagreed := agreed_of_reachable hfresh h
  refine ⟨fun hkeys side => ?_, fun side hne hfinished => ?_, fun side => (hagreed side).2⟩
  · have hsame : (s side).key = (s side.other).key := by
      cases side with
      | left => exact hkeys
      | right => exact hkeys.symm
    exact ⟨hagreed.not_rejected hsame, fun hfinished =>
      ⟨(hagreed.proved hfinished).sent, hagreed.peer_of_finished hsame hfinished⟩⟩
  · exact hne (hagreed.proved hfinished).code_eq

/-! ### A lost answer -/

/-- An end before it starts, whose random bytes climb from a first one. -/
def newcomer (key : Key) (first : Nat) : End :=
  let network : Network := { random := .stepping first 37 none }
  { connection := { role := .client, peer := default, key, readTimeout := 0 }
    timeout := 100 * Time.millisecond
    origin := network
    network }

def newcomers (left right : Key) : Ends
  | .left => newcomer left 0
  | .right => newcomer right 1

/-- Both ends have started. -/
def started (left right : Key) : Ends :=
  let s := newcomers left right
  let t := Function.update s .left (s .left).start
  Function.update t .right (t .right).start

/-- The left end has heard the challenge of the right one. -/
def greeted (left right : Key) : Ends :=
  let s := started left right
  deliver s .left (bringing (challenge (s .right).nonce))

/-- Each end has heard the challenge of the other. -/
def challenged (left right : Key) : Ends :=
  let s := greeted left right
  deliver s .right (bringing (challenge (s .left).nonce))

/-- The answer to the left end has come; the one to the right end is lost. -/
def halfway (key : Key) : Ends :=
  let s := challenged key key
  deliver s .left (bringing (proof (s .right).key (s .left).nonce))

theorem fresh_newcomers (left right : Key) (side : Side) : (newcomers left right side).Fresh := by
  cases side <;> exact ⟨rfl, rfl, rfl, fun fate hfate => by cases hfate⟩

theorem reachable_started (left right : Key) :
    Reachable (newcomers left right) (started left right) :=
  (Reachable.refl.move (.start .left)).move (.start .right)

theorem reachable_greeted (left right : Key) :
    Reachable (newcomers left right) (greeted left right) := by
  have hstarted := reachable_started left right
  have hagreed := agreed_of_reachable (fresh_newcomers left right) hstarted
  have hstage : ∃ deadline, (started left right .right).stage = .exchanging deadline {} :=
    ⟨_, rfl⟩
  obtain ⟨deadline, hstage⟩ := hstage
  exact hstarted.move (.hear .left (carries_bringing (hagreed.challenge_mem hstage)))

theorem reachable_challenged (left right : Key) :
    Reachable (newcomers left right) (challenged left right) := by
  have hgreeted := reachable_greeted left right
  have hagreed := agreed_of_reachable (fresh_newcomers left right) hgreeted
  have hstage : ∃ deadline,
      (greeted left right .left).stage = .exchanging deadline { answered := true } := ⟨_, rfl⟩
  obtain ⟨deadline, hstage⟩ := hstage
  exact hgreeted.move (.hear .right (carries_bringing (hagreed.challenge_mem hstage)))

theorem stage_challenged (left right : Key) (side : Side) : ∃ deadline,
    (challenged left right side).stage = .exchanging deadline { answered := true } := by
  cases side <;> exact ⟨_, rfl⟩

theorem key_newcomers (key : Key) (side : Side) : (newcomers key key side).key = key := by
  cases side <;> rfl

theorem reachable_halfway (key : Key) : Reachable (newcomers key key) (halfway key) := by
  have hchallenged := reachable_challenged key key
  have hagreed := agreed_of_reachable (fresh_newcomers key key) hchallenged
  obtain ⟨deadline, hstage⟩ := stage_challenged key key .right
  exact hchallenged.move (.hear .left (carries_bringing (hagreed.proof_mem hstage rfl)))

theorem stage_halfway_left (key : Key) : (halfway key .left).stage = .finished := by
  obtain ⟨deadline, hstage⟩ := stage_challenged key key .left
  have hkeys : (challenged key key .right).key = (challenged key key .left).key := by
    have hchallenged := reachable_challenged key key
    rw [hchallenged.key_eq, hchallenged.key_eq, key_newcomers, key_newcomers]
  rw [halfway, deliver, Function.update_self, hkeys]
  exact End.hear_proof hstage (brings_bringing _)

theorem stage_halfway_right (key : Key) : ∃ deadline,
    (halfway key .right).stage = .exchanging deadline { answered := true } :=
  stage_challenged key key .right

/-- An end that misses the answer it is owed can still be completed and then is, and two ends
with different keys do not finish. -/
theorem lost_answer_is_made_up :
    (halfway (.constant 7) .left).stage = .finished ∧
      Completable (halfway (.constant 7)) .right ∧
      (∃ t, Reachable (halfway (.constant 7)) t ∧ (t .right).stage = .finished) ∧
      ∀ side, (challenged (.constant 7) (.constant 8) side).stage ≠ .finished := by
  have hfinished := stage_halfway_left (.constant 7)
  obtain ⟨deadline, hwaits⟩ := stage_halfway_right (.constant 7)
  have hhalfway := reachable_halfway (.constant 7)
  have hkeys : (halfway (.constant 7) .left).key = (halfway (.constant 7) .right).key := by
    rw [hhalfway.key_eq, hhalfway.key_eq, key_newcomers, key_newcomers]
  obtain ⟨hagree, -, -⟩ := ends_agree (fresh_newcomers _ _) hhalfway
  obtain ⟨-, hpeer⟩ := hagree hkeys .left
  obtain ⟨-, hdiffer, -⟩ :=
    ends_agree (fresh_newcomers _ _) (reachable_challenged (.constant 7) (.constant 8))
  have hcompletable : Completable (halfway (.constant 7)) .right := by
    rcases (hpeer hfinished).2 with hdone | hlate | hcompletable
    · exact absurd (hwaits.symm.trans hdone) Stage.noConfusion
    · exact absurd (hwaits.symm.trans hlate) Stage.noConfusion
    · exact hcompletable
  refine ⟨hfinished, hcompletable, hcompletable.reaches_finished, fun side => hdiffer side ?_⟩
  cases side <;> decide +kernel

end Framecast.Authentication
