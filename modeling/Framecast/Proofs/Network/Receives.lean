/-
How many receive calls are made.

A receive call takes the next arrival off the script, or waits for its whole timeout when the
script is over.  So the calls made and the arrivals still to come, the `horizon`, grow only by
calls after the script, and each of these brings a deadline closer by one timeout.

A loop that calls again only before a deadline can therefore make as many calls as there are
arrivals and timeouts left.  This is its `allowance`, which no call before the deadline raises,
whatever it brings and however soon it returns.
-/
import Mathlib.Algebra.Order.Floor.Div
import Framecast.Proofs.Network.Waits

namespace Framecast

namespace Network

variable {n : Network} {interval : Nat} {deadline : Int}

/-- The receive calls made and the arrivals still to come. -/
def horizon (n : Network) : Nat :=
  n.receives + n.inbound.length

/-- The receive calls there can have been by the deadline, if those after the script wait for an
interval each. -/
def allowance (interval : Nat) (deadline : Int) (n : Network) : Nat :=
  n.horizon + (deadline - n.now).toNat ⌈/⌉ interval

theorem receives_le_horizon (n : Network) : n.receives ≤ n.horizon :=
  Nat.le_add_right ..

theorem horizon_le_allowance (interval : Nat) (deadline : Int) (n : Network) :
    n.horizon ≤ n.allowance interval deadline :=
  Nat.le_add_right ..

/-- The allowance of a loop that starts now. -/
theorem allowance_add_now (interval timeout : Nat) (n : Network) :
    n.allowance interval (n.now + (timeout : Int)) = n.horizon + timeout ⌈/⌉ interval := by
  have htime : (n.now + (timeout : Int) - n.now).toNat = timeout := by omega
  rw [allowance, htime]

theorem allowance_of_late (h : deadline ≤ n.now) (interval : Nat) :
    n.allowance interval deadline = n.horizon := by
  have htime : (deadline - n.now).toNat = 0 := by omega
  rw [allowance, htime, zero_ceilDiv, Nat.add_zero]

/-! ### Receive calls -/

theorem horizon_receive_of_cons {e : Event} {later : List Event} (h : n.inbound = e :: later)
    (timeout capacity : Nat) : (n.receive timeout capacity).2.horizon = n.horizon := by
  rw [receive_eq, h]
  show n.receives + 1 + later.length = n.receives + n.inbound.length
  rw [h, List.length_cons]
  omega

theorem horizon_receive_of_nil (h : n.inbound = []) (timeout capacity : Nat) :
    (n.receive timeout capacity).2.horizon = n.horizon + 1 := by
  rw [receive_eq, h]
  show n.receives + 1 + 0 = n.receives + n.inbound.length + 1
  rw [h]
  rfl

theorem horizon_receive_le (n : Network) (timeout capacity : Nat) :
    (n.receive timeout capacity).2.horizon ≤ n.horizon + 1 := by
  cases h : n.inbound with
  | nil => exact (horizon_receive_of_nil h timeout capacity).le
  | cons e later => exact (horizon_receive_of_cons h timeout capacity).le.trans (Nat.le_succ _)

/-- One interval less to wait for is one interval less. -/
theorem ceilDiv_sub_add_one {span : Nat} (hinterval : 0 < interval) (hspan : 0 < span) :
    (span - interval) ⌈/⌉ interval + 1 = span ⌈/⌉ interval := by
  have hleft : (span - interval + interval - 1) / interval = (span - 1) / interval := by
    by_cases hle : interval ≤ span
    · rw [Nat.sub_add_cancel hle]
    · rw [Nat.div_eq_of_lt (by omega), Nat.div_eq_of_lt (by omega)]
  have hright : span + interval - 1 = span - 1 + interval := by omega
  rw [Nat.ceilDiv_eq_add_pred_div, Nat.ceilDiv_eq_add_pred_div, hleft, hright,
    Nat.add_div_right _ hinterval]

/-- A call after the script uses up one interval. -/
theorem allowance_receive_of_nil (hin : n.inbound = []) (hinterval : 0 < interval)
    (htime : n.now < deadline) (capacity : Nat) :
    (n.receive interval capacity).2.allowance interval deadline =
      n.allowance interval deadline := by
  have hwait : (deadline - (n.receive interval capacity).2.now).toNat =
      (deadline - n.now).toNat - interval := by
    rw [now_receive_nil n interval capacity hin]
    omega
  have hleft : 0 < (deadline - n.now).toNat := by omega
  rw [allowance, allowance, horizon_receive_of_nil hin, hwait,
    ← ceilDiv_sub_add_one hinterval hleft]
  omega

/-- **A call before the deadline does not raise the allowance.** -/
theorem allowance_receive_le (hinterval : 0 < interval) (htime : n.now < deadline)
    (capacity : Nat) :
    (n.receive interval capacity).2.allowance interval deadline ≤
      n.allowance interval deadline := by
  cases hin : n.inbound with
  | nil => exact (allowance_receive_of_nil hin hinterval htime capacity).le
  | cons e later =>
    have hnow := n.now_le_receive interval capacity
    rw [allowance, allowance, horizon_receive_of_cons hin]
    exact Nat.add_le_add_left ((gc_smul_ceilDiv hinterval).monotone_l (by omega)) _

/-! ### Other calls -/

/-- What a deadline and a script leave to a loop. -/
def stage (n : Network) : Int × Nat :=
  (n.now, n.horizon)

theorem allowance_of_stage {m : Network} (h : m.stage = n.stage) (interval : Nat)
    (deadline : Int) : m.allowance interval deadline = n.allowance interval deadline := by
  obtain ⟨hnow, hhorizon⟩ : m.now = n.now ∧ m.horizon = n.horizon := by
    simpa only [stage, Prod.mk.injEq] using h
  rw [allowance, allowance, hnow, hhorizon]

theorem stage_attempt (n : Network) (e : Effect) : (n.attempt e).2.stage = n.stage := by
  unfold attempt
  split <;> rfl

theorem horizon_attempt (n : Network) (e : Effect) : (n.attempt e).2.horizon = n.horizon :=
  congrArg Prod.snd (n.stage_attempt e)

theorem stage_draw (n : Network) (size : Nat) : (n.draw size).2.stage = n.stage := by
  unfold draw
  split <;> rfl

end Network

/-! ### Actions -/

namespace Action

open Network (horizon)

variable {α β : Type} {x : Action Network α} {f : α → Action Network β} {count more : Nat}

/-- The action makes at most `count` receive calls after the script, however it ends. -/
def Overruns (x : Action Network α) (count : Nat) : Prop :=
  ∀ n, (x n).2.horizon ≤ n.horizon + count

theorem overruns_of_leaves (hx : x.Leaves horizon) : x.Overruns 0 :=
  fun n => (hx n).le

theorem Overruns.mono (hx : x.Overruns count) (h : count ≤ more) : x.Overruns more :=
  fun n => (hx n).trans (Nat.add_le_add_left h _)

theorem Overruns.bind (hx : x.Overruns count) (hf : ∀ a, (f a).Overruns more) :
    Action.Overruns (x >>= f) (count + more) := by
  intro n
  have hfirst := hx n
  rw [bind_apply]
  cases hrun : x n with
  | mk r m =>
    rw [hrun] at hfirst
    cases r with
    | error e => exact hfirst.trans (by omega)
    | ok a => exact (hf a m).trans (by dsimp only at hfirst; omega)

/-- Something that receives nothing may come first. -/
theorem Overruns.after (hx : x.Leaves horizon) (hf : ∀ a, (f a).Overruns count) :
    Action.Overruns (x >>= f) count := by
  have h := (overruns_of_leaves hx).bind hf
  rwa [Nat.zero_add] at h

/-- Something that receives nothing may follow. -/
theorem Overruns.before (hx : x.Overruns count) (hf : ∀ a, (f a).Leaves horizon) :
    Action.Overruns (x >>= f) count :=
  hx.bind fun a => overruns_of_leaves (hf a)

/-- From `n` the action makes at most `count` receive calls and returns what it was to find, or
a failure. -/
def EndsWithin (x : Action Network α) (n : Network) (count : Nat) : Prop :=
  (x n).2.receives ≤ n.receives + count ∧ ((∃ a, (x n).1 = .ok a) ∨ ∃ e, (x n).1 = .error e)

theorem Overruns.endsWithin (h : x.Overruns count) (n : Network) :
    x.EndsWithin n (n.inbound.length + count) := by
  refine ⟨?_, ?_⟩
  · calc (x n).2.receives
      _ ≤ (x n).2.horizon := Network.receives_le_horizon _
      _ ≤ n.horizon + count := h n
      _ = n.receives + (n.inbound.length + count) := Nat.add_assoc ..
  · cases (x n).1 with
    | error e => exact Or.inr ⟨e, rfl⟩
    | ok a => exact Or.inl ⟨a, rfl⟩

end Action

end Framecast
