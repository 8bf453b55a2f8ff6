/-
Bounded queues.

A queue holds at most as many items as its capacity, which is at least one.  Items
leave in the order they came; an item that finds the queue full is not taken in.
-/

namespace Framecast

/-- A queue of at most `capacity` items, oldest first. -/
structure BoundedQueue (α : Type) where
  capacity : Nat
  items : List α := []
  length_items_le : items.length ≤ capacity := by simp

namespace BoundedQueue

variable {α : Type}

/-- An empty queue.  No queue has room for less than one item. -/
def empty (capacity : Nat) : BoundedQueue α :=
  { capacity := max capacity 1 }

/-- The number of items. -/
def size (q : BoundedQueue α) : Nat := q.items.length

/-- Whether there is nothing to take. -/
def isEmpty (q : BoundedQueue α) : Bool := q.items.isEmpty

/-- Puts an item behind all others, if there is room for it. -/
def enqueue? (q : BoundedQueue α) (a : α) : Option (BoundedQueue α) :=
  if h : q.items.length < q.capacity then
    some
      { capacity := q.capacity
        items := q.items ++ [a]
        length_items_le := by rw [List.length_append]; exact h }
  else none

/-- Takes the oldest item. -/
def dequeue? (q : BoundedQueue α) : Option (α × BoundedQueue α) :=
  match h : q.items with
  | [] => none
  | a :: rest =>
    some (a,
      { capacity := q.capacity
        items := rest
        length_items_le := by have := q.length_items_le; simp [h] at this; omega })

/-- An item that is taken in comes last. -/
theorem items_of_enqueue? {q p : BoundedQueue α} {a : α} (h : q.enqueue? a = some p) :
    p.items = q.items ++ [a] ∧ p.capacity = q.capacity := by
  unfold enqueue? at h
  split at h
  · cases h; exact ⟨rfl, rfl⟩
  · cases h

/-- The item that is taken was the first. -/
theorem items_of_dequeue? {q p : BoundedQueue α} {a : α} (h : q.dequeue? = some (a, p)) :
    q.items = a :: p.items ∧ p.capacity = q.capacity := by
  unfold dequeue? at h
  split at h
  · cases h
  · next hq => cases h; exact ⟨hq, rfl⟩

end BoundedQueue

end Framecast
