/-
What a handshake makes of the datagrams it receives.

What was received on the way from one state to another is read off the script: a receive call
takes one event off it, whatever the event is.  `Answered` is what `Takes` comes to over an
exchange where sends succeed: it is done only with what it was told, it rejects a proof exactly
if it received a wrong one, and apart from its own challenge it has sent the answers to the
challenges it received.
-/
import Framecast.Proofs.Authentication.Agreement
import Framecast.Proofs.Authentication.Alive

namespace Framecast

namespace Network

/-! ### What was received -/

/-- The datagrams received on the way from `n` to `m`, in order: those among as many events of
the script as there were receive calls. -/
def receivedSince (n m : Network) : List Bytes :=
  (n.inbound.take (m.receives - n.receives)).filterMap Event.datagram?

/-- How many receive calls were made, and what is still to come. -/
def readings (n : Network) : Nat × List Event :=
  (n.receives, n.inbound)

variable {n k m : Network}

theorem receivedSince_of_readings_eq (h : m.readings = n.readings) : n.receivedSince m = [] := by
  have hreceives : m.receives = n.receives := congrArg Prod.fst h
  rw [receivedSince, hreceives, Nat.sub_self]
  rfl

/-- What was received is what the first call brought, and then what came since. -/
theorem receivedSince_of_read (hk : k.readings = (n.receives + 1, n.inbound.tail))
    (hle : k.receives ≤ m.receives) :
    n.receivedSince m = n.next.datagram?.toList ++ k.receivedSince m := by
  obtain ⟨hreceives, hinbound⟩ : k.receives = n.receives + 1 ∧ k.inbound = n.inbound.tail :=
    Prod.mk.inj hk
  have hcalls : m.receives - n.receives = (m.receives - k.receives) + 1 := by omega
  unfold receivedSince next
  rw [hcalls, hinbound]
  cases n.inbound with
  | nil => simp [Event.datagram?, Event.quiet]
  | cons e later =>
    rw [List.take_succ_cons, List.filterMap_cons, List.headD_cons, List.tail_cons]
    cases e.datagram? <;> rfl

theorem readings_send (n : Network) (d : Bytes) : (n.send d).2.readings = n.readings := by
  unfold send attempt
  split <;> rfl

end Network

namespace Authentication

open Network (readings readings_send)

/-! ### Shapes -/

/-- The datagram has the first byte and the length of a challenge. -/
def IsChallenge (d : Bytes) : Prop :=
  d.head? = some challengeTag ∧ d.length = 1 + nonceSize

/-- The datagram has the first byte and the length of a proof. -/
def IsProof (d : Bytes) : Prop :=
  d.head? = some proofTag ∧ d.length = 1 + codeSize

instance (d : Bytes) : Decidable (IsChallenge d) := inferInstanceAs (Decidable (_ ∧ _))

instance (d : Bytes) : Decidable (IsProof d) := inferInstanceAs (Decidable (_ ∧ _))

variable {key : Key} {nonce : Bytes} {d : Bytes}

theorem isChallenge_iff : IsChallenge d ↔ meaning d = .challenge d.tail := by
  rw [meaning_eq_challenge, IsChallenge, challenge]
  cases d with
  | nil => simp
  | cons tag rest => simp [Nat.add_comm 1]

theorem isProof_iff : IsProof d ↔ meaning d = .proof d.tail := by
  rw [meaning_eq_proof, IsProof]
  cases d with
  | nil => simp
  | cons tag rest => simp [Nat.add_comm 1]

theorem isChallenge_challenge {theirs : Bytes} (h : theirs.length = nonceSize) :
    IsChallenge (challenge theirs) :=
  ⟨rfl, by rw [challenge, List.length_cons, h, Nat.add_comm]⟩

/-- The shape of a datagram, by its meaning. -/
theorem shape_of_meaning (d : Bytes) :
    match meaning d with
    | .challenge theirs => IsChallenge d ∧ theirs = d.tail
    | .proof given => IsProof d ∧ d = proofTag :: given
    | .noise => ¬ IsChallenge d ∧ ¬ IsProof d := by
  cases hmeans : meaning d with
  | challenge theirs =>
    obtain ⟨rfl, hlength⟩ := meaning_eq_challenge.mp hmeans
    exact ⟨isChallenge_iff.mpr hmeans, rfl⟩
  | proof given =>
    obtain ⟨rfl, hlength⟩ := meaning_eq_proof.mp hmeans
    exact ⟨isProof_iff.mpr hmeans, rfl⟩
  | noise =>
    rw [isChallenge_iff, isProof_iff, hmeans]
    exact ⟨Meaning.noConfusion, Meaning.noConfusion⟩

theorem isProof_cons {given : Bytes} (h : given.length = codeSize) : IsProof (proofTag :: given) :=
  ⟨rfl, by rw [List.length_cons, h, Nat.add_comm]⟩

theorem isProof_proof (key : Key) (nonce : Bytes) : IsProof (proof key nonce) :=
  isProof_cons (length_code key nonce)

theorem IsProof.not_isChallenge (h : IsProof d) : ¬ IsChallenge d := fun hc => by
  have htag := hc.1.symm.trans h.1
  exact absurd htag (by decide)

/-- The answers to the challenges among some datagrams, in order. -/
def answersTo (key : Key) (ds : List Bytes) : List Bytes :=
  (ds.filter (IsChallenge ·)).map fun d => proof key d.tail

theorem answersTo_append (key : Key) (ds es : List Bytes) :
    answersTo key (ds ++ es) = answersTo key ds ++ answersTo key es := by
  rw [answersTo, List.filter_append, List.map_append]
  rfl

theorem answersTo_of_isChallenge (h : IsChallenge d) : answersTo key [d] = [proof key d.tail] := by
  simp [answersTo, h]

theorem answersTo_of_not_isChallenge (h : ¬ IsChallenge d) : answersTo key [d] = [] := by
  simp [answersTo, h]

/-! ### One step -/

section Step

variable {p : Progress} {n : Network}

/-- A step makes one receive call. -/
theorem readings_step (key : Key) (nonce : Bytes) (p : Progress) (n : Network) :
    (step key nonce p n).2.readings = (n.receives + 1, n.inbound.tail) := by
  have herror (errno : Errno) : (afterError nonce p errno).Leaves readings :=
    leaves_afterError (fun n => readings_send n _) p errno
  have hdatagram (d : Bytes) : (afterDatagram key nonce p d).Leaves readings :=
    leaves_afterDatagram (fun n _ => readings_send n _) nonce p d
  rw [step_eq]
  cases n.next.outcome capacity with
  | error errno => exact herror errno _
  | ok arrival => exact hdatagram arrival.1 _

end Step

section Takes

variable {p q : Progress} {n : Network} {r : Except Failure Progress} {out : List Bytes}

/-- What was left open before the step and is settled after it, the datagram has settled. -/
theorem Takes.settles (h : Takes key nonce p n (.ok q) out) :
    (q.answered = true → p.answered = true ∨ ∃ d ∈ n.next.datagram?, IsChallenge d) ∧
      (q.verified = true → p.verified = true ∨ proof key nonce ∈ n.next.datagram?) := by
  cases h with
  | waits | again | ignores => exact ⟨Or.inl, Or.inl⟩
  | answers hbrings hlength =>
    exact ⟨fun _ => Or.inr ⟨_, hbrings, isChallenge_challenge hlength⟩, Or.inl⟩
  | verifies hbrings => exact ⟨Or.inl, fun _ => Or.inr hbrings⟩

/-- A proof is rejected exactly if it is wrong. -/
theorem Takes.rejects_iff (h : Takes key nonce p n r out) (ha : n.Accepts) :
    r = .error .proofRejected ↔
      ∃ d ∈ n.next.datagram?.toList, IsProof d ∧ d ≠ proof key nonce := by
  cases h with
  | waits hnone | again hnone => simp [hnone]
  | breaks hfails => simp [Event.datagram?, hfails]
  | @answers theirs hbrings hlength =>
    have hshape : ¬ IsProof (challenge theirs) := fun h =>
      h.not_isChallenge (isChallenge_challenge hlength)
    simp [hbrings, hshape]
  | verifies hbrings => simp [hbrings]
  | @rejects given hbrings hlength hwrong =>
    have hshape := isProof_cons hlength
    have hother : proofTag :: given ≠ proof key nonce := fun h =>
      hwrong (List.tail_eq_of_cons_eq h)
    simp [hbrings, hshape, hother]
  | @ignores d hbrings hnoise =>
    have hshape := shape_of_meaning d
    rw [hnoise] at hshape
    simp [hbrings, hshape.2]
  | refused hrefuses => exact absurd ha hrefuses

/-- Apart from the challenge of the side itself, the answer to a challenge is all that is sent. -/
theorem Takes.sends (h : Takes key nonce p n r out) (ha : n.Accepts) :
    out.filter (· ≠ challenge nonce) = answersTo key n.next.datagram?.toList := by
  cases h with
  | waits hnone =>
    rw [hnone]
    rfl
  | again hnone =>
    rw [hnone]
    simp [answersTo]
  | breaks hfails =>
    rw [Event.datagram?, hfails]
    rfl
  | @answers theirs hbrings hlength =>
    rw [hbrings, Option.toList_some, answersTo_of_isChallenge (isChallenge_challenge hlength)]
    have hother : proof key theirs ≠ challenge nonce := (challenge_ne_proof nonce theirs key).symm
    rw [List.filter_cons_of_pos (by simp [hother])]
    rfl
  | verifies hbrings =>
    rw [hbrings, Option.toList_some,
      answersTo_of_not_isChallenge (isProof_proof key nonce).not_isChallenge]
    rfl
  | rejects hbrings hlength =>
    rw [hbrings, Option.toList_some,
      answersTo_of_not_isChallenge (isProof_cons hlength).not_isChallenge]
    rfl
  | @ignores d hbrings hnoise =>
    have hshape := shape_of_meaning d
    rw [hnoise] at hshape
    rw [hbrings, Option.toList_some, answersTo_of_not_isChallenge hshape.1]
    rfl
  | refused hrefuses => exact absurd ha hrefuses

end Takes

/-! ### An exchange -/

/-- What can be said of an exchange from `p` and `n` that comes to the result `r` and to `m`. -/
structure Answered (key : Key) (nonce : Bytes) (p : Progress) (n : Network)
    (r : Except Failure Unit) (m : Network) : Prop where
  receives_le : n.receives ≤ m.receives
  challenged : r = .ok () → p.answered = true ∨ ∃ d ∈ n.receivedSince m, IsChallenge d
  proved : r = .ok () → p.verified = true ∨ proof key nonce ∈ n.receivedSince m
  rejects_iff : r = .error .proofRejected ↔
    ∃ d ∈ n.receivedSince m, IsProof d ∧ d ≠ proof key nonce
  sends : ∃ out, n.Sends out m ∧
    out.filter (· ≠ challenge nonce) = answersTo key (n.receivedSince m)

section Exchange

variable {p q : Progress} {n k m : Network} {r : Except Failure Unit} {out : List Bytes}

/-- Nothing was received, and nothing rejected. -/
theorem answered_of_readings_eq (hreadings : m.readings = n.readings) (hsends : n.Sends [] m)
    (hok : r = .ok () → p.isDone = true) (herror : r ≠ .error .proofRejected) :
    Answered key nonce p n r m := by
  have hnone := Network.receivedSince_of_readings_eq hreadings
  have hreceives : m.receives = n.receives := congrArg Prod.fst hreadings
  refine ⟨by omega, fun h => ?_, fun h => ?_, ?_, [], hsends, ?_⟩
  · exact Or.inl (Progress.eq_of_done (hok h)).1
  · exact Or.inl (Progress.eq_of_done (hok h)).2
  · rw [hnone]
    exact iff_of_false herror (by simp)
  · rw [hnone]
    rfl

/-- A step that fails, and is the last. -/
theorem answered_of_step_error {why : Failure} (ha : n.Accepts)
    (htakes : Takes key nonce p n (.error why) out)
    (hk : k.readings = (n.receives + 1, n.inbound.tail)) (hsends : n.Sends out k) :
    Answered key nonce p n (.error why) k := by
  have hreceives : k.receives = n.receives + 1 := congrArg Prod.fst hk
  have hreceived : n.receivedSince k = n.next.datagram?.toList := by
    rw [Network.receivedSince_of_read hk (Nat.le_refl _),
      Network.receivedSince_of_readings_eq rfl, List.append_nil]
  refine ⟨by omega, nofun, nofun, ?_, out, hsends, ?_⟩
  · rw [hreceived, ← htakes.rejects_iff ha, Except.error.injEq, Except.error.injEq]
  · rw [hreceived, htakes.sends ha]

/-- **A step, and the exchange after it.** -/
theorem Answered.after (h : Answered key nonce q k r m) (ha : n.Accepts)
    (htakes : Takes key nonce p n (.ok q) out)
    (hk : k.readings = (n.receives + 1, n.inbound.tail)) (hsends : n.Sends out k) :
    Answered key nonce p n r m := by
  obtain ⟨hle, hchallenged, hproved, hrejects, later, hlater, hanswers⟩ := h
  obtain ⟨hanswered, hverified⟩ := htakes.settles
  have hreceives : k.receives = n.receives + 1 := congrArg Prod.fst hk
  have hreceived := Network.receivedSince_of_read hk hle
  have hmem (d : Bytes) (hd : d ∈ n.next.datagram?) : d ∈ n.receivedSince m := by
    rw [hreceived]
    exact List.mem_append_left _ (Option.mem_toList.mpr hd)
  have hmem' (d : Bytes) (hd : d ∈ k.receivedSince m) : d ∈ n.receivedSince m := by
    rw [hreceived]
    exact List.mem_append_right _ hd
  refine ⟨by omega, fun hok => ?_, fun hok => ?_, ?_, out ++ later, hsends.trans hlater, ?_⟩
  · rcases hchallenged hok with hq | ⟨d, hd, hshape⟩
    · exact (hanswered hq).imp id fun ⟨d, hd, hshape⟩ => ⟨d, hmem d hd, hshape⟩
    · exact Or.inr ⟨d, hmem' d hd, hshape⟩
  · rcases hproved hok with hq | hd
    · exact (hverified hq).imp id (hmem _)
    · exact Or.inr (hmem' _ hd)
  · -- A step that goes on has not received a wrong proof.
    have hright : ¬ ∃ d ∈ n.next.datagram?.toList, IsProof d ∧ d ≠ proof key nonce :=
      fun hwrong => nomatch (htakes.rejects_iff ha).mpr hwrong
    rw [hrejects, hreceived]
    constructor
    · rintro ⟨d, hd, hwrong⟩
      exact ⟨d, List.mem_append_right _ hd, hwrong⟩
    · rintro ⟨d, hd, hwrong⟩
      rcases List.mem_append.mp hd with hfirst | hlater
      · exact absurd ⟨d, hfirst, hwrong⟩ hright
      · exact ⟨d, hlater, hwrong⟩
  · rw [hreceived, List.filter_append, answersTo_append, htakes.sends ha, hanswers]

/-- **What an exchange makes of what it receives.**  By induction over its steps. -/
theorem exchange_answered (key : Key) (nonce : Bytes) (deadline : Int) (p : Progress)
    (ha : n.Accepts) :
    Answered key nonce p n (exchange key nonce deadline p n).1
      (exchange key nonce deadline p n).2 := by
  fun_induction exchange key nonce deadline p n with
  | case1 p n hdone =>
    exact answered_of_readings_eq rfl (.refl n) (fun _ => hdone) (by simp)
  | case2 p n hopen htime =>
    exact answered_of_readings_eq rfl (.refl n) (by simp) (by simp)
  | case3 p n hopen htime e m hstep =>
    have hreadings := readings_step key nonce p n
    obtain ⟨out, htakes, hsends, -⟩ := step_takes key nonce p n
    rw [hstep] at hreadings htakes hsends
    exact answered_of_step_error ha htakes hreadings hsends
  | case4 p n hopen htime q m hstep ih =>
    have hreadings := readings_step key nonce p n
    obtain ⟨out, htakes, hsends, haccepts⟩ := step_takes key nonce p n
    rw [hstep] at hreadings htakes hsends haccepts
    exact (ih (haccepts ha)).after ha htakes hreadings hsends

end Exchange

end Authentication

end Framecast
