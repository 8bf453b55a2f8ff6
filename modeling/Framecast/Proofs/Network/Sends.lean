/-
What goes out on a network.

A trace only grows, so what was sent on the way from one state to another is what was
sent on the way to any state in between, and then from there.  `Sends` carries both
facts from call to call.  Waiting sends nothing.  A datagram that is offered goes out
once if the offer succeeds and not at all if it fails, however often it was refused
before.

A world that `Accepts` refuses no send ever.  `Ready` is what it takes for some sends in a
row to go well: the world refuses none of them, and there are random bytes for the nonce of
each.
-/
import Framecast.Connection.Send
import Framecast.Proofs.Action

namespace Framecast

namespace Authentication

/-- The datagrams sent between two states of a network. -/
def sentSince (n m : Network) : List Bytes :=
  (m.trace.toList.drop n.trace.size).filterMap fun e =>
    match e.2 with
    | .sent d => some d
    | _ => none

theorem sentSince_push {n m m' : Network} {t : Int} {d : Bytes}
    (hsize : n.trace.size ≤ m.trace.size) (h : m'.trace = m.trace.push (t, .sent d)) :
    sentSince n m' = sentSince n m ++ [d] := by
  unfold sentSince
  rw [h, Array.toList_push, List.drop_append_of_le_length (by simpa using hsize),
    List.filterMap_append]
  rfl

end Authentication

namespace Network

open Authentication (sentSince)

/-- The program comes from `n` to `m` and sends the datagrams `out`. -/
structure Sends (n : Network) (out : List Bytes) (m : Network) : Prop where
  grows : n.trace.toList <+: m.trace.toList
  sent : sentSince n m = out

variable {n m k : Network} {out later : List Bytes}

theorem sentSince_trans (h : n.trace.toList <+: m.trace.toList)
    (h' : m.trace.toList <+: k.trace.toList) :
    sentSince n k = sentSince n m ++ sentSince m k := by
  obtain ⟨first, hm⟩ := h
  obtain ⟨second, hk⟩ := h'
  unfold sentSince
  rw [← hk, ← hm]
  have hn : n.trace.size = n.trace.toList.length := rfl
  have hm' : m.trace.size = (n.trace.toList ++ first).length := by rw [hm]; rfl
  rw [hm', List.drop_left, List.append_assoc, hn, List.drop_left, List.drop_left,
    List.filterMap_append]

theorem Sends.trans (h : n.Sends out m) (h' : m.Sends later k) : n.Sends (out ++ later) k where
  grows := h.grows.trans h'.grows
  sent := by rw [sentSince_trans h.grows h'.grows, h.sent, h'.sent]

/-- A state with the same trace. -/
theorem Sends.of_trace_eq (h : m.trace = n.trace) : n.Sends [] m where
  grows := h ▸ List.prefix_refl n.trace.toList
  sent := by
    unfold sentSince
    rw [h]
    have hn : n.trace.size = n.trace.toList.length := rfl
    rw [hn, List.drop_length]
    rfl

theorem Sends.refl (n : Network) : n.Sends [] n :=
  .of_trace_eq rfl

/-- What is sent from a state with the same trace. -/
theorem Sends.after (h : m.Sends out k) (htrace : m.trace = n.trace) : n.Sends out k :=
  (Sends.of_trace_eq htrace).trans h

theorem sends_of_sent {t : Int} {d : Bytes} (h : m.trace = n.trace.push (t, .sent d)) :
    n.Sends [d] m where
  grows := by
    rw [h, Array.toList_push]
    exact List.prefix_append ..
  sent := by
    rw [Authentication.sentSince_push (Nat.le_refl _) h, (Sends.refl n).sent, List.nil_append]

theorem sends_of_other {t : Int} {e : Effect} (h : m.trace = n.trace.push (t, e))
    (hother : ∀ d, e ≠ .sent d) : n.Sends [] m where
  grows := by
    rw [h, Array.toList_push]
    exact List.prefix_append ..
  sent := by
    have hn : n.trace.size = n.trace.toList.length := rfl
    unfold sentSince
    rw [h, Array.toList_push, hn, List.drop_left]
    cases e with
    | sent d => exact absurd rfl (hother d)
    | sentTo destination d => rfl
    | refused errno => rfl
    | bound endpoint => rfl
    | connected endpoint => rfl
    | slept span => rfl

/-! ### Waiting -/

theorem sends_sleep (n : Network) (span : Nat) : n.Sends [] (n.sleep span) := by
  unfold sleep
  split
  · exact .refl n
  · exact sends_of_other rfl fun d h => by cases h

theorem outbound_sleep (n : Network) (span : Nat) : (n.sleep span).outbound = n.outbound := by
  unfold sleep
  split <;> rfl

theorem random_sleep (n : Network) (span : Nat) : (n.sleep span).random = n.random := by
  unfold sleep
  split <;> rfl

theorem inbound_sleep (n : Network) (span : Nat) : (n.sleep span).inbound = n.inbound := by
  unfold sleep
  split <;> rfl

end Network

namespace Bucket

/-- Waiting for the pacer is sleeping, and nothing else. -/
theorem waitFor_network (bytes attempts : Nat) (b : Bucket Float) (n : Network) :
    n.Sends [] (waitFor Time.ofSeconds bytes attempts b n).2 ∧
      (waitFor Time.ofSeconds bytes attempts b n).2.outbound = n.outbound ∧
      (waitFor Time.ofSeconds bytes attempts b n).2.random = n.random := by
  induction attempts generalizing b n with
  | zero => exact ⟨.refl n, rfl, rfl⟩
  | succ attempts ih =>
      rw [waitFor]
      split
      · exact ⟨.refl n, rfl, rfl⟩
      · rename_i seconds b' _
        obtain ⟨hsends, hout, hrandom⟩ := ih b' (n.sleep (Time.ofSeconds seconds))
        rw [Network.outbound_sleep] at hout
        rw [Network.random_sleep] at hrandom
        exact ⟨(Network.sends_sleep n _).trans hsends, hout, hrandom⟩

theorem inbound_waitFor (bytes attempts : Nat) (b : Bucket Float) (n : Network) :
    (waitFor Time.ofSeconds bytes attempts b n).2.inbound = n.inbound := by
  induction attempts generalizing b n with
  | zero => rfl
  | succ attempts ih =>
      rw [waitFor]
      split
      · rfl
      · rw [ih, Network.inbound_sleep]

end Bucket

namespace Network

/-! ### Sending -/

/-- The world refuses no send. -/
def Accepts (n : Network) : Prop :=
  ∀ fate ∈ n.outbound, fate = none

/-- What a send call can do. -/
theorem send_cases (n : Network) (d : Bytes) :
    (∃ m, n.send d = (.ok (), m) ∧ n.Sends [d] m ∧ (n.Accepts → m.Accepts)) ∨
      ∃ errno m, n.send d = (.error errno, m) ∧ n.Sends [] m ∧ ¬ n.Accepts := by
  unfold send attempt Accepts
  cases hout : n.outbound with
  | nil => exact Or.inl ⟨_, rfl, sends_of_sent rfl, fun _ fate hfate => nomatch hout ▸ hfate⟩
  | cons fate later =>
      cases fate with
      | none =>
          exact Or.inl ⟨_, rfl, sends_of_sent rfl, fun h fate hfate =>
            h fate (List.mem_cons_of_mem _ hfate)⟩
      | some errno =>
          exact Or.inr ⟨errno, _, rfl, sends_of_other rfl fun d h => (by cases h), fun h =>
            nomatch h _ (List.mem_cons_self ..)⟩

theorem Accepts.send {n : Network} (h : n.Accepts) (d : Bytes) :
    ∃ m, Action.ofCall (·.send d) n = (.ok (), m) ∧ m.Accepts ∧ n.Sends [d] m := by
  rcases n.send_cases d with ⟨m, hsend, hsends, haccepts⟩ | ⟨errno, m, -, -, hrefuses⟩
  · exact ⟨m, Action.ofCall_of_ok hsend, haccepts h, hsends⟩
  · exact absurd h hrefuses

/-- **An offer sends its datagram once, or fails and sends nothing.** -/
theorem offer_cases (n : Network) (d : Bytes) (retries : Nat) :
    (∃ m, Link.offer d retries n = (.ok (), m) ∧ n.Sends [d] m) ∨
      ∃ errno m, Link.offer d retries n = (.error errno, m) ∧ n.Sends [] m := by
  induction retries generalizing n with
  | zero =>
      rcases send_cases n d with ⟨m, hsend, hm, -⟩ | ⟨errno, m, hsend, hm, -⟩
      · exact Or.inl ⟨m, hsend, hm⟩
      · exact Or.inr ⟨errno, m, hsend, hm⟩
  | succ retries ih =>
      rw [Link.offer]
      rcases send_cases n d with ⟨m, hsend, hm, -⟩ | ⟨errno, m, hsend, hm, -⟩
      · rw [hsend]
        exact Or.inl ⟨m, rfl, hm⟩
      · rw [hsend]
        dsimp only
        by_cases hfull : errno.isBufferFull
        · rw [if_pos hfull]
          have hslept := hm.trans (sends_sleep m Link.retryPause)
          rcases ih (m.sleep Link.retryPause) with ⟨k, hoffer, hk⟩ | ⟨errno', k, hoffer, hk⟩
          · exact Or.inl ⟨k, hoffer, hslept.trans hk⟩
          · exact Or.inr ⟨errno', k, hoffer, hslept.trans hk⟩
        · rw [if_neg hfull]
          exact Or.inr ⟨errno, m, rfl, hm⟩

theorem inbound_offer (n : Network) (d : Bytes) (retries : Nat) :
    (Link.offer d retries n).2.inbound = n.inbound := by
  induction retries generalizing n with
  | zero => exact n.inbound_attempt (.sent d)
  | succ retries ih =>
      have hsend : (n.send d).2.inbound = n.inbound := n.inbound_attempt (.sent d)
      rw [Link.offer]
      rcases hcall : n.send d with ⟨_ | _, m⟩
      · rw [hcall] at hsend
        dsimp only
        split
        · rw [ih, inbound_sleep, hsend]
        · exact hsend
      · rw [hcall] at hsend
        exact hsend

/-! ### Random bytes -/

/-- A draw gives as many bytes as were asked for, or leaves the source as it is. -/
theorem draw_cases (n : Network) (size : Nat) :
    n.draw size = (none, n) ∨
      ∃ bytes random, n.draw size = (some bytes, { n with random }) ∧ bytes.length = size := by
  unfold draw RandomSource.draw?
  split
  · rename_i h
    split at h
    · exact Or.inl rfl
    · cases h
  · rename_i bytes random h
    split at h
    · cases h
    · cases h
      exact Or.inr ⟨_, _, rfl, by rw [List.length_map, List.length_range]⟩

/-! ### A world that lets sends succeed -/

/-- The next `count` sends are accepted, and there are random bytes for their nonces. -/
structure Ready (n : Network) (count : Nat) : Prop where
  accepts : ∀ fate ∈ n.outbound.take count, fate = none
  draws : ∀ limit, n.random.limit = some limit →
    n.random.drawn + count * Sealed.nonceSize ≤ limit

/-- A draw for one more nonce succeeds. -/
theorem Ready.draw {n : Network} {count : Nat} (h : n.Ready (count + 1)) :
    ∃ bytes random, n.draw Sealed.nonceSize = (some bytes, { n with random }) ∧
      bytes.length = Sealed.nonceSize ∧ random.limit = n.random.limit ∧
      random.drawn = n.random.drawn + Sealed.nonceSize := by
  have henough : n.random.limit.any (· < n.random.drawn + Sealed.nonceSize) = false := by
    cases hlimit : n.random.limit with
    | none => rfl
    | some limit =>
        have hdraws := h.draws limit hlimit
        rw [Nat.add_one_mul] at hdraws
        rw [Option.any_some, decide_eq_false_iff_not]
        omega
  unfold Network.draw RandomSource.draw?
  rw [henough]
  exact ⟨_, _, rfl, by rw [List.length_map, List.length_range], rfl, rfl⟩

/-- The next send is accepted. -/
theorem Ready.accepts_first {n : Network} {count : Nat} (h : n.Ready (count + 1)) :
    ∀ fate ∈ n.outbound.head?, fate = none := by
  intro fate hfate
  refine h.accepts fate ?_
  cases hout : n.outbound with
  | nil =>
      rw [hout] at hfate
      cases hfate
  | cons first rest =>
      rw [hout, List.head?_cons, Option.mem_some_iff] at hfate
      rw [hfate]
      exact List.mem_cons_self ..

/-- A send and the draw for it leave the world ready for one fewer. -/
theorem Ready.next {n m : Network} {count : Nat} (h : n.Ready (count + 1))
    (hout : m.outbound = n.outbound.tail) (hlimit : m.random.limit = n.random.limit)
    (hdrawn : m.random.drawn = n.random.drawn + Sealed.nonceSize) : m.Ready count where
  accepts := by
    intro fate hfate
    rw [hout] at hfate
    refine h.accepts fate ?_
    cases hlist : n.outbound with
    | nil =>
        rw [hlist] at hfate
        simp at hfate
    | cons first rest =>
        rw [hlist, List.tail_cons] at hfate
        exact List.mem_cons_of_mem first hfate
  draws := by
    intro limit hmost
    rw [hlimit] at hmost
    have hdraws := h.draws limit hmost
    rw [Nat.add_one_mul] at hdraws
    rw [hdrawn]
    omega

/-- The first offer of a datagram is accepted. -/
theorem offer_of_accepts {n : Network} {d : Bytes} (retries : Nat)
    (h : ∀ fate ∈ n.outbound.head?, fate = none) :
    ∃ m, Link.offer d retries n = (.ok (), m) ∧ m.outbound = n.outbound.tail ∧
      m.random = n.random := by
  have hsend : ∃ m, n.send d = (.ok (), m) ∧ m.outbound = n.outbound.tail ∧
      m.random = n.random := by
    unfold send attempt
    cases hout : n.outbound with
    | nil => exact ⟨_, rfl, hout, rfl⟩
    | cons fate later =>
        rw [hout] at h
        rw [h fate rfl]
        exact ⟨_, rfl, rfl, rfl⟩
  obtain ⟨m, hm, hout, hrandom⟩ := hsend
  refine ⟨m, ?_, hout, hrandom⟩
  cases retries with
  | zero => exact hm
  | succ retries => rw [Link.offer, hm]

end Network

end Framecast
