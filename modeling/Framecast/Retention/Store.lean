/-
Sent fragments, kept for sending again.

A store has room for `units` units of one channel and for `places` fragments of each.
Unit `id` uses the room of every id congruent to it modulo `units`, so a unit is
forgotten fragment by fragment as a later unit of the same room is stored.  What is
found under an id is always a fragment of that very unit.
-/
import Framecast.Packet.Basic

namespace Framecast

/-- The fragments kept of one channel. -/
structure Store where
  /-- How many units have room of their own. -/
  units : Nat
  /-- How many fragments of a unit are kept. -/
  places : Nat
  /-- The largest unit the store was made for. -/
  maxUnit : Nat
  /-- `units * places` positions, one row of `places` for each room. -/
  kept : Array (Option Packet)
  deriving Repr

namespace Store

/-- The fragments kept of a unit of at most `maxUnit` bytes. -/
def placesFor (maxUnit : Nat) : Nat :=
  maxUnit / Packet.maxPayload + 2

/-- A store with room for `units` units of at most `maxUnit` bytes. -/
def empty (maxUnit units : Nat) : Store :=
  let units := max units 1
  let places := placesFor maxUnit
  { units, places, maxUnit, kept := Array.replicate (units * places) none }

/-- The most positions of a store.  A position takes 48 bytes, and no table has more bytes
than a signed machine word counts. -/
def mostPositions : Nat := 0x7FFFFFFFFFFFFFFF / 48

/-- The table of such a store is not too large to be laid out.  The product is not cut to a
machine word: a number of positions that no word holds is too large as well. -/
def Fits (maxUnit units : Nat) : Prop :=
  max units 1 * placesFor maxUnit ≤ mostPositions

instance (maxUnit units : Nat) : Decidable (Fits maxUnit units) :=
  inferInstanceAs (Decidable (_ ≤ _))

/-- Lays out a new store, if its table is not too large. -/
def make? (maxUnit units : Nat) : Option Store :=
  if Fits maxUnit units then some (empty maxUnit units) else none

/-- The room that a unit uses. -/
def room (s : Store) (id : Int32) : Nat :=
  (id.toInt % (s.units : Int)).toNat

/-- The position of a fragment, if the store has a place for it. -/
def position? (s : Store) (id : Int32) (index : UInt16) : Option Nat :=
  if index.toNat < s.places then some (s.room id * s.places + index.toNat) else none

/-- Keeps a fragment.  Returns whether there was a place for it. -/
def insert (s : Store) (p : Packet) : Bool × Store :=
  match s.position? p.id p.index with
  | none => (false, s)
  | some i => (true, { s with kept := s.kept.setIfInBounds i (some p) })

/-- Looks a fragment up.  It is returned, and from then on kept, as one that is sent
again. -/
def find? (s : Store) (id : Int32) (index : UInt16) : Option Packet × Store :=
  match s.position? id index with
  | none => (none, s)
  | some i =>
    match s.kept[i]?.join with
    | none => (none, s)
    | some p =>
      if p.id = id ∧ p.index = index then
        let p := { p with resent := true }
        (some p, { s with kept := s.kept.setIfInBounds i (some p) })
      else (none, s)

end Store

end Framecast
