/-
The assembly of one channel: a ring of units in flight.

Unit `id` has its slot at `id` modulo the size of the ring.  A newer unit takes the
slot over from an older one; an older unit that finds a newer one there is too late.
Once a unit has been handed on, every unit up to it is finished.
-/
import Framecast.Assembly.Slot

namespace Framecast

namespace Assembly

/-- The limits of an assembly. -/
structure Limits where
  /-- Units in flight. -/
  size : Nat := 275
  /-- The most fragments of a unit. -/
  maxFragments : Nat := 1024
  /-- The least time between two requests for a fragment, in nanoseconds. -/
  rearm : Nat := 25 * Time.millisecond
  /-- The most requests for a fragment. -/
  maxRequests : Nat := 3
  /-- The most requests of one round. -/
  maxPerRound : Nat := 64
  deriving DecidableEq, Repr, Inhabited

/-- What an assembly has seen. -/
structure Counts where
  fresh : Nat := 0
  resent : Nat := 0
  duplicates : Nat := 0
  completed : Nat := 0
  skipped : Nat := 0
  requested : Nat := 0
  deriving DecidableEq, Repr, Inhabited

end Assembly

/-- The units of one channel that are being put together. -/
structure Assembly where
  channel : Channel
  limits : Assembly.Limits
  slots : Array (Option Slot)
  /-- The newest unit of which something arrived. -/
  newest : Option Int32 := none
  /-- The oldest unit of which something arrived. -/
  oldest : Option Int32 := none
  /-- The newest unit handed on. -/
  lastTaken : Option Int32 := none
  counts : Assembly.Counts := {}
  deriving DecidableEq, Repr

namespace Assembly

/-- An assembly that has seen nothing.  It has at least one slot. -/
def empty (channel : Channel) (limits : Limits) : Assembly :=
  let size := max limits.size 1
  { channel
    limits := { limits with size }
    slots := Array.replicate size none }

/-- The position of a unit in the ring. -/
def position (a : Assembly) (id : Int32) : Nat :=
  (id.toInt % (a.limits.size : Int)).toNat

/-- The slot at the position of a unit, whichever unit it holds. -/
def slotAt? (a : Assembly) (id : Int32) : Option Slot :=
  a.slots[a.position id]?.join

/-- The slot of a unit. -/
def slotOf? (a : Assembly) (id : Int32) : Option Slot :=
  (a.slotAt? id).filter fun s => s.id = id

/-- Puts a slot at the position of its unit. -/
def put (a : Assembly) (s : Slot) : Assembly :=
  { a with slots := a.slots.setIfInBounds (a.position s.id) (some s) }

/-- Whether a unit is at or below the newest one handed on. -/
def isFinished (a : Assembly) (id : Int32) : Bool :=
  a.lastTaken.any fun t => id ≤ t

/-- Adds to the count of units given up. -/
def countSkipped (a : Assembly) (n : Nat) : Assembly :=
  { a with counts := { a.counts with skipped := a.counts.skipped + n } }

/-- Adds one to the count of fragments that came twice. -/
def countDuplicate (a : Assembly) : Assembly :=
  { a with counts := { a.counts with duplicates := a.counts.duplicates + 1 } }

/-- Gives up whatever is at the position of a unit; a unit that is not finished counts
as skipped. -/
def vacate (a : Assembly) (id : Int32) : Assembly :=
  match a.slotAt? id with
  | some old => if old.taken || a.isFinished old.id then a else a.countSkipped 1
  | none => a

end Assembly

end Framecast
