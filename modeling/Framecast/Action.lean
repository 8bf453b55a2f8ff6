/-
Actions: steps that change a state and may fail.

A failed action keeps the changes it made before it failed, for what went out on a
network cannot be taken back.  The action after a failed one is not run.
-/
import Framecast.Failure
import Framecast.Network.Basic

namespace Framecast

/-- A step on a state `σ` with a result of type `α` or a failure. -/
def Action (σ α : Type) : Type := σ → Except Failure α × σ

namespace Action

variable {σ α β : Type}

/-- Results without a change. -/
protected def pure (a : α) : Action σ α := fun s => (.ok a, s)

/-- Two actions in a row; the second sees the result of the first. -/
protected def bind (x : Action σ α) (f : α → Action σ β) : Action σ β := fun s =>
  match x s with
  | (.ok a, s) => f a s
  | (.error e, s) => (.error e, s)

instance : Monad (Action σ) where
  pure := Action.pure
  bind := Action.bind

theorem pure_apply (a : α) (s : σ) : (pure a : Action σ α) s = (.ok a, s) := rfl

theorem bind_apply (x : Action σ α) (f : α → Action σ β) (s : σ) :
    (x >>= f) s =
      match x s with
      | (.ok a, s) => f a s
      | (.error e, s) => (.error e, s) := rfl

/-- Fails. -/
def fail (e : Failure) : Action σ α := fun s => (.error e, s)

/-- The state, or something it says. -/
def read (f : σ → α) : Action σ α := fun s => (.ok (f s), s)

/-- Changes the state. -/
def change (f : σ → σ) : Action σ Unit := fun s => (.ok (), f s)

/-- Succeeds or fails as `r` says. -/
def ofExcept (r : Except Failure α) : Action σ α := fun s => (r, s)

/-- A system call: its error number becomes a failure. -/
def ofCall (call : σ → Except Errno α × σ) : Action σ α := fun s =>
  match call s with
  | (.ok a, s) => (.ok a, s)
  | (.error e, s) => (.error (.system e), s)

/-- A system call that leaves no trace. -/
def ofCheck (check : σ → Except Errno α) : Action σ α :=
  ofCall fun s => (check s, s)

end Action

namespace Network

/-- Draws random bytes for the use of a cipher. -/
def drawBytes (size : Nat) : Action Network Bytes := fun n =>
  match n.draw size with
  | (none, n) => (.error .sealing, n)
  | (some bytes, n) => (.ok bytes, n)

end Network

end Framecast
