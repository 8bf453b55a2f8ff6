/-
How far apart the repetitions of a loop are.

A loop that sends a datagram again and again has no clock for it: it sends again when a
receive call ends in a way that prompts it to.  So the moments of its repetitions can be read
off the script.  `waited` is how much time goes by until a number of calls were prompts, and
`Prompted` says that an effect happened at just these moments, up to some number of times.

`FollowsScript` is what follows: reads that run into their timeout keep repetitions an interval
apart, and each prompt that comes before that, an `early` one, can bring every later repetition
forward by one interval.
-/
import Framecast.Proofs.Action

namespace Framecast

namespace Event

/-- How long a receive call takes that brings the event. -/
def span (timeout : Nat) (e : Event) : Nat :=
  match e.arrival with
  | .silence => timeout
  | _ => e.delay

/-- What a receive call returns that brings the event. -/
def outcome (capacity : Nat) (e : Event) : Except Errno (Bytes × Endpoint) :=
  match e.arrival with
  | .datagram bytes sender => .ok (bytes.take capacity, sender)
  | .failure errno => .error errno
  | .silence => .error .again

/-- The datagram that an event brings. -/
def datagram? (event : Event) : Option Bytes :=
  match event.arrival with
  | .datagram d _ => some d
  | _ => none

/-- Nothing, for as long as the read timeout. -/
def quiet : Event := ⟨.silence, 0⟩

@[simp] theorem span_quiet (timeout : Nat) : quiet.span timeout = timeout :=
  rfl

end Event

/-! ### Waiting for a number of prompts -/

section Waited

variable {interval : Nat} {prompts : Event → Bool} {script : List Event}

/-- How much time goes by until `count` receive calls were prompts.  After the script every
call is one, for nothing comes any more. -/
def waited (interval : Nat) (prompts : Event → Bool) : List Event → Nat → Nat
  | _, 0 => 0
  | [], count => count * interval
  | e :: later, count + 1 =>
    e.span interval + waited interval prompts later (if prompts e then count else count + 1)

/-- How many prompts come before the read timeout is over. -/
def early (interval : Nat) (prompts : Event → Bool) (script : List Event) : Nat :=
  script.countP fun e => prompts e && e.span interval < interval

@[simp] theorem waited_zero (interval : Nat) (prompts : Event → Bool) (script : List Event) :
    waited interval prompts script 0 = 0 := by
  cases script <;> rfl

theorem waited_nil (interval : Nat) (prompts : Event → Bool) (count : Nat) :
    waited interval prompts [] count = count * interval := by
  cases count
  · rw [waited_zero, Nat.zero_mul]
  · rfl

/-- The next call takes its time, and counts if it is a prompt. -/
theorem waited_succ (hquiet : prompts .quiet = true) (script : List Event) (count : Nat) :
    waited interval prompts script (count + 1) =
      (script.headD .quiet).span interval + waited interval prompts script.tail
        (if prompts (script.headD .quiet) then count else count + 1) := by
  cases script with
  | nil =>
    simp only [List.headD_nil, List.tail_nil, hquiet, if_true, waited_nil, Event.span_quiet]
    rw [Nat.succ_mul, Nat.add_comm]
  | cons e later => rfl

/-- **Each early prompt costs one interval at most.** -/
theorem sub_early_mul_le_waited (interval : Nat) (prompts : Event → Bool) (script : List Event)
    (count : Nat) : (count - early interval prompts script) * interval ≤
      waited interval prompts script count := by
  induction script generalizing count with
  | nil =>
    rw [waited_nil]
    exact Nat.le_refl _
  | cons e later ih =>
    cases count with
    | zero => simp
    | succ count =>
      have hearly : early interval prompts (e :: later) = early interval prompts later +
          if prompts e && decide (e.span interval < interval) then 1 else 0 :=
        List.countP_cons
      rw [waited, hearly]
      cases hprompts : prompts e with
      | false =>
        have := ih (count + 1)
        simpa using Nat.le_trans this (Nat.le_add_left ..)
      | true =>
        have := ih count
        by_cases hspan : e.span interval < interval
        · simpa [hspan] using Nat.le_trans this (Nat.le_add_left ..)
        · -- The call took an interval at least, which makes up for the one more that is asked.
          have hstep : (count + 1 - early interval prompts later) * interval ≤
              (count - early interval prompts later) * interval + interval := by
            rw [← Nat.succ_mul]
            exact Nat.mul_le_mul_right interval (by omega)
          simp only [hspan, decide_false, Bool.and_false, Bool.false_eq_true, if_false, if_true,
            Nat.add_zero]
          omega

/-- The times keep the interval: the `k`-th after the first comes `k` intervals later or more. -/
def Paced (interval : Nat) (times : List Int) : Prop :=
  ∀ first ∈ times.head?, ∀ k, ∀ t ∈ times[k]?, first + (k * interval : Nat) ≤ t

/-- The moments at which a loop that starts then repeats what it does. -/
def repetitions (start : Int) (wait : Nat → Nat) (count : Nat) : List Int :=
  (List.range count).map fun k => start + (wait k : Int)

theorem repetitions_succ (start : Int) (wait : Nat → Nat) (count : Nat) :
    repetitions start wait (count + 1) =
      (start + (wait 0 : Int)) :: repetitions start (fun k => wait (k + 1)) count := by
  simp [repetitions, List.range_succ_eq_map, Function.comp_def]

/-- **Repetitions keep an interval if and only if the waits for them do.** -/
theorem paced_repetitions_iff (interval : Nat) (start : Int) {wait : Nat → Nat} (count : Nat)
    (hwait : wait 0 = 0) :
    Paced interval (repetitions start wait count) ↔ ∀ k < count, k * interval ≤ wait k := by
  have hget (k : Nat) (hk : k < count) :
      (repetitions start wait count)[k]? = some (start + (wait k : Int)) := by
    rw [repetitions, List.getElem?_map, List.getElem?_range hk]
    rfl
  constructor
  · intro h k hk
    have hhead : (repetitions start wait count).head? = some start := by
      rw [List.head?_eq_getElem?, hget 0 (by omega), hwait, Int.natCast_zero, Int.add_zero]
    have := h start hhead k _ (hget k hk)
    omega
  · intro h first hfirst k t ht
    have hk : k < count := by
      have hlt := (List.getElem?_eq_some_iff.mp ht).1
      rwa [repetitions, List.length_map, List.length_range] at hlt
    rw [List.head?_eq_getElem?, hget 0 (by omega), hwait] at hfirst
    rw [hget k hk] at ht
    have := h k hk
    cases hfirst
    cases ht
    omega

end Waited

namespace Network

/-! ### The next receive call -/

/-- The event that the next receive call brings. -/
def next (n : Network) : Event :=
  n.inbound.headD .quiet

theorem receive_eq (n : Network) (timeout capacity : Nat) :
    n.receive timeout capacity =
      (n.next.outcome capacity, n.returned n.inbound.tail (n.next.span timeout)) := by
  unfold receive next
  split <;> simp_all [Event.outcome, Event.span, Event.quiet]

/-! ### When something happened -/

/-- The moments of the effects of a kind, in order. -/
def times (kind : Effect → Bool) (n : Network) : List Int :=
  (n.trace.toList.filter fun entry => kind entry.2).map Prod.fst

/-- The moments of the effects of a kind since an earlier state. -/
def timesSince (kind : Effect → Bool) (n m : Network) : List Int :=
  (m.times kind).drop (n.times kind).length

section Times

variable {kind : Effect → Bool} {e : Effect} {n m k : Network}

theorem timesSince_of_eq {later : List Int} (h : m.times kind = n.times kind ++ later) :
    timesSince kind n m = later := by
  rw [timesSince, h, List.drop_left]

theorem times_note (kind : Effect → Bool) (n : Network) (e : Effect) :
    (n.note e).times kind = n.times kind ++ if kind e then [n.now] else [] := by
  unfold times note
  rw [Array.toList_push, List.filter_append, List.map_append]
  cases h : kind e <;> simp [h]

theorem times_receive (kind : Effect → Bool) (n : Network) (timeout capacity : Nat) :
    (n.receive timeout capacity).2.times kind = n.times kind := by
  rw [receive_eq]
  rfl

/-- A send call that is accepted happens now. -/
theorem times_attempt_of_ok (h : n.attempt e = (.ok (), m)) :
    m.times kind = n.times kind ++ if kind e then [n.now] else [] := by
  unfold attempt at h
  split at h <;> cases h <;> exact times_note ..

/-- One that is refused does not happen. -/
theorem times_attempt_of_error {errno : Errno} (hrefused : ∀ errno, kind (.refused errno) = false)
    (h : n.attempt e = (.error errno, m)) : m.times kind = n.times kind := by
  unfold attempt at h
  split at h <;> cases h
  rw [times_note, hrefused]
  exact List.append_nil _

/-- A send call of another kind leaves the times alone. -/
theorem times_attempt_of_not (hrefused : ∀ errno, kind (.refused errno) = false)
    (he : kind e = false) (n : Network) : (n.attempt e).2.times kind = n.times kind := by
  cases hcall : n.attempt e with
  | mk r m =>
    cases r with
    | error errno => exact times_attempt_of_error hrefused hcall
    | ok u =>
      rw [times_attempt_of_ok hcall, he]
      exact List.append_nil _

/-! ### Following a script -/

variable {interval : Nat} {prompts : Event → Bool}

/-- On the way from `n` to `m` the effects of a kind happened at the prompts of the script, the
first so many of them. -/
def Prompted (interval : Nat) (prompts : Event → Bool) (kind : Effect → Bool) (n m : Network) :
    Prop :=
  ∃ count, m.times kind = n.times kind ++
    repetitions n.now (fun k => waited interval prompts n.inbound (k + 1)) count

theorem prompted_of_times_eq (h : m.times kind = n.times kind) :
    Prompted interval prompts kind n m :=
  ⟨0, by rw [h]; exact (List.append_nil _).symm⟩

/-- The state `k` is where `n` comes to with its next receive call, but for effects. -/
structure After (interval : Nat) (n k : Network) : Prop where
  now : k.now = n.now + (n.next.span interval : Int)
  inbound : k.inbound = n.inbound.tail

/-- A call that is a prompt, and what follows. -/
theorem Prompted.again (h : Prompted interval prompts kind k m)
    (hquiet : prompts .quiet = true) (hprompts : prompts n.next = true)
    (hafter : After interval n k) (htimes : k.times kind = n.times kind ++ [k.now]) :
    Prompted interval prompts kind n m := by
  obtain ⟨count, hcount⟩ := h
  refine ⟨count + 1, ?_⟩
  have hwaited (c : Nat) : waited interval prompts n.inbound (c + 1) =
      n.next.span interval + waited interval prompts k.inbound c := by
    rw [waited_succ hquiet, hafter.inbound]
    exact congrArg (fun b => _ + waited interval prompts _ b) (if_pos hprompts)
  rw [hcount, htimes, List.append_assoc, repetitions_succ, hwaited 0, waited_zero, hafter.now]
  simp only [hwaited, repetitions, Nat.add_zero, Int.natCast_add, Int.add_assoc]
  rfl

/-- A call that is none, and what follows. -/
theorem Prompted.pass (h : Prompted interval prompts kind k m)
    (hquiet : prompts .quiet = true) (hprompts : prompts n.next = false)
    (hafter : After interval n k) (htimes : k.times kind = n.times kind) :
    Prompted interval prompts kind n m := by
  obtain ⟨count, hcount⟩ := h
  refine ⟨count, ?_⟩
  have hwaited (c : Nat) : waited interval prompts n.inbound (c + 1) =
      n.next.span interval + waited interval prompts k.inbound (c + 1) := by
    rw [waited_succ hquiet, hafter.inbound]
    exact congrArg (fun b => _ + waited interval prompts _ b)
      (if_neg (by rw [show n.inbound.headD .quiet = n.next from rfl, hprompts]; decide))
  rw [hcount, htimes, hafter.now]
  simp only [hwaited, repetitions, Int.natCast_add, Int.add_assoc]

/-- What can be said of the moments at which a program does something over and over, the first
time at once and then at the prompts of its script. -/
structure FollowsScript (interval : Nat) (prompts : Event → Bool) (n : Network)
    (moments : List Int) : Prop where
  /-- Each repetition comes just when the script prompts it. -/
  moments_eq : moments = repetitions n.now (waited interval prompts n.inbound) moments.length
  /-- The interval is kept if and only if the script makes the program wait for it. -/
  paced_iff : Paced interval moments ↔
    ∀ k < moments.length, k * interval ≤ waited interval prompts n.inbound k
  /-- Each early prompt brings a repetition forward by one interval at most. -/
  at_worst : ∀ k, ∀ t ∈ moments[k]?,
    n.now + ((k - early interval prompts n.inbound) * interval : Nat) ≤ t
  /-- The interval is kept if no prompt is early. -/
  paced : early interval prompts n.inbound = 0 → Paced interval moments

theorem followsScript_repetitions (interval : Nat) (prompts : Event → Bool) (n : Network)
    (count : Nat) : FollowsScript interval prompts n
      (repetitions n.now (waited interval prompts n.inbound) count) := by
  have hlength : (repetitions n.now (waited interval prompts n.inbound) count).length = count := by
    rw [repetitions, List.length_map, List.length_range]
  have hpaced := paced_repetitions_iff interval n.now count
    (waited_zero interval prompts n.inbound)
  refine ⟨by rw [hlength], by rw [hlength]; exact hpaced, fun k t ht => ?_, fun hearly => ?_⟩
  · obtain ⟨hk, rfl⟩ := List.getElem?_eq_some_iff.mp ht
    have := sub_early_mul_le_waited interval prompts n.inbound k
    simp only [repetitions, List.getElem_map, List.getElem_range]
    omega
  · refine hpaced.mpr fun k _ => ?_
    have := sub_early_mul_le_waited interval prompts n.inbound k
    rwa [hearly, Nat.sub_zero] at this

/-- **What is done once and then at the prompts follows the script.** -/
theorem followsScript_of_prompted (hnow : k.now = n.now) (hinbound : k.inbound = n.inbound)
    (htimes : k.times kind = n.times kind ++ [n.now]) (h : Prompted interval prompts kind k m) :
    FollowsScript interval prompts n (timesSince kind n m) := by
  obtain ⟨count, hcount⟩ := h
  have hmoments : timesSince kind n m =
      repetitions n.now (waited interval prompts n.inbound) (count + 1) := by
    refine timesSince_of_eq ?_
    rw [hcount, htimes, hnow, hinbound, repetitions_succ, waited_zero, List.append_assoc]
    simp
  rw [hmoments]
  exact followsScript_repetitions ..

/-- What is not done at all follows the script, too. -/
theorem followsScript_of_times_eq (h : m.times kind = n.times kind) :
    FollowsScript interval prompts n (timesSince kind n m) := by
  have hnone : m.times kind = n.times kind ++ [] := by rw [h, List.append_nil]
  rw [timesSince_of_eq hnone]
  exact followsScript_repetitions interval prompts n 0

/-! ### Actions -/

/-- On every network the effects of a kind follow the script. -/
def ScriptDriven {α : Type} (interval : Nat) (prompts : Event → Bool) (kind : Effect → Bool)
    (x : Action Network α) : Prop :=
  ∀ n, FollowsScript interval prompts n (timesSince kind n (x n).2)

/-- What the moments depend on. -/
def stand (kind : Effect → Bool) (n : Network) : Int × List Event × List Int :=
  (n.now, n.inbound, n.times kind)

variable {α β : Type} {x : Action Network α} {f : α → Action Network β}

/-- Something that takes no time may come first. -/
theorem ScriptDriven.after (hx : x.Leaves (stand kind))
    (hf : ∀ a, ScriptDriven interval prompts kind (f a)) :
    ScriptDriven interval prompts kind (x >>= f) := by
  intro n
  have hstand := hx n
  rw [Action.bind_apply]
  cases hrun : x n with
  | mk r m =>
    rw [hrun] at hstand
    obtain ⟨hnow, hinbound, htimes⟩ :
        m.now = n.now ∧ m.inbound = n.inbound ∧ m.times kind = n.times kind := by
      simpa only [stand, Prod.mk.injEq] using hstand
    cases r with
    | error e => exact followsScript_of_times_eq htimes
    | ok a =>
      have h := hf a m
      have hsince : timesSince kind n (f a m).2 = timesSince kind m (f a m).2 := by
        rw [timesSince, timesSince, htimes]
      show FollowsScript interval prompts n (timesSince kind n (f a m).2)
      rw [hsince]
      refine ⟨?_, ?_, ?_, ?_⟩
      · rw [← hnow, ← hinbound]
        exact h.moments_eq
      · rw [← hinbound]
        exact h.paced_iff
      · rw [← hnow, ← hinbound]
        exact h.at_worst
      · rw [← hinbound]
        exact h.paced

/-- Nothing of the kind may follow. -/
theorem ScriptDriven.before (hx : ScriptDriven interval prompts kind x)
    (hf : ∀ a, (f a).Leaves (times kind)) : ScriptDriven interval prompts kind (x >>= f) := by
  intro n
  rw [timesSince, Action.view_bind hf]
  exact hx n

end Times

end Network

end Framecast
