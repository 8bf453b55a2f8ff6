/-
Actions in a row.

What two actions in a row do is read off what the first one does.  An action that leaves
some part of the state alone is made of actions that leave it alone.
-/
import Framecast.Action

namespace Framecast.Action

variable {σ α β γ : Type} {x : Action σ α} {f : α → Action σ β} {s t : σ}

theorem bind_of_ok {a : α} (h : x s = (.ok a, t)) : (x >>= f) s = f a t := by
  rw [bind_apply, h]

theorem bind_of_error {e : Failure} (h : x s = (.error e, t)) : (x >>= f) s = (.error e, t) := by
  rw [bind_apply, h]

theorem bind_assoc (x : Action σ α) (f : α → Action σ β) (g : β → Action σ γ) :
    x >>= f >>= g = x >>= fun a => f a >>= g := by
  funext s
  simp only [bind_apply]
  cases x s with
  | mk r t => cases r <;> rfl

theorem bind_eq_ok {b : β} (h : (x >>= f) s = (.ok b, t)) :
    ∃ a k, x s = (.ok a, k) ∧ f a k = (.ok b, t) := by
  rw [bind_apply] at h
  cases hx : x s with
  | mk r k =>
      rw [hx] at h
      cases r with
      | error e => cases h
      | ok a => exact ⟨a, k, rfl, h⟩

theorem bind_eq_error {e : Failure} (h : (x >>= f) s = (.error e, t)) :
    x s = (.error e, t) ∨ ∃ a k, x s = (.ok a, k) ∧ f a k = (.error e, t) := by
  rw [bind_apply] at h
  cases hx : x s with
  | mk r k =>
      rw [hx] at h
      cases r with
      | error why =>
          cases h
          exact Or.inl rfl
      | ok a => exact Or.inr ⟨a, k, rfl, h⟩

/-- The action leaves what `view` sees of the state. -/
def Leaves (a : Action σ α) (view : σ → γ) : Prop :=
  ∀ s, view (a s).2 = view s

/-- What is left alone afterwards is as the first action leaves it. -/
theorem view_bind {view : σ → γ} (hf : ∀ a, (f a).Leaves view) (s : σ) :
    view ((x >>= f) s).2 = view (x s).2 := by
  rw [bind_apply]
  cases x s with
  | mk r t =>
      cases r with
      | error e => rfl
      | ok a => exact hf a t

theorem Leaves.bind {view : σ → γ} (hx : x.Leaves view) (hf : ∀ a, (f a).Leaves view) :
    Leaves (x >>= f) view :=
  fun s => (view_bind hf s).trans (hx s)

theorem leaves_pure (view : σ → γ) (a : α) : (pure a : Action σ α).Leaves view := fun _ => rfl

theorem leaves_fail (view : σ → γ) (e : Failure) : (fail e : Action σ α).Leaves view := fun _ => rfl

theorem leaves_read (view : σ → γ) (g : σ → α) : (read g).Leaves view := fun _ => rfl

theorem leaves_ofExcept (view : σ → γ) (r : Except Failure α) :
    (ofExcept r : Action σ α).Leaves view := fun _ => rfl

theorem ofCall_of_ok {call : σ → Except Errno α × σ} {a : α} (h : call s = (.ok a, t)) :
    ofCall call s = (.ok a, t) := by
  unfold ofCall
  rw [h]

theorem ofCall_of_error {call : σ → Except Errno α × σ} {errno : Errno}
    (h : call s = (.error errno, t)) : ofCall call s = (.error (.system errno), t) := by
  unfold ofCall
  rw [h]

theorem ofCheck_of_ok {check : σ → Except Errno α} {a : α} (h : check s = .ok a) :
    ofCheck check s = (.ok a, s) :=
  ofCall_of_ok (by rw [h])

theorem ofCheck_of_error {check : σ → Except Errno α} {errno : Errno} (h : check s = .error errno) :
    ofCheck check s = (.error (.system errno), s) :=
  ofCall_of_error (by rw [h])

theorem ofCall_snd (call : σ → Except Errno α × σ) (s : σ) : (ofCall call s).2 = (call s).2 := by
  unfold ofCall
  cases call s with
  | mk r t => cases r <;> rfl

theorem leaves_ofCall {call : σ → Except Errno α × σ} {view : σ → γ}
    (h : ∀ s, view (call s).2 = view s) : (ofCall call).Leaves view := by
  intro s
  rw [ofCall_snd]
  exact h s

theorem leaves_ofCheck (view : σ → γ) (check : σ → Except Errno α) : (ofCheck check).Leaves view :=
  leaves_ofCall fun _ => rfl

theorem leaves_drawBytes {view : Network → γ} {size : Nat}
    (hdraw : ∀ n, view (n.draw size).2 = view n) : (Network.drawBytes size).Leaves view := by
  intro n
  rw [← hdraw n]
  unfold Network.drawBytes
  cases n.draw size with
  | mk r m => cases r <;> rfl

end Framecast.Action
