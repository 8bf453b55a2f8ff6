/-
One unit while its fragments come in.

A slot is opened either by the first fragment of its unit or by the sight of a later
unit.  In the second case the number of fragments is not known yet; the slot then has
a single cell, that of fragment zero, whose arrival will tell.
-/
import Framecast.Packet.Basic
import Framecast.Time

namespace Framecast

/-- One place of a unit: its payload, and how often it was asked for. -/
structure Cell where
  payload : Option Bytes := none
  requests : Nat := 0
  lastRequest : Option Int := none
  deriving DecidableEq, Repr, Inhabited

/-- One unit that is being put together. -/
structure Slot where
  id : Int32
  /-- The number of fragments, zero until the first one arrives. -/
  count : Nat := 0
  cells : List Cell := [{}]
  /-- How many cells are filled. -/
  received : Nat := 0
  /-- The highest index received. -/
  highest : Nat := 0
  /-- Whether the unit was handed on or given up. -/
  taken : Bool := false
  deriving DecidableEq, Repr, Inhabited

namespace Slot

/-- Gives a slot of unknown size its cells.  Requests for fragment zero stay
remembered. -/
def sized (s : Slot) (count : Nat) : Slot :=
  { s with
    count
    cells := s.cells.take 1 ++ List.replicate (count - 1) {} }

/-- Whether all fragments are there. -/
def isComplete (s : Slot) : Bool :=
  s.count > 0 && s.received = s.count

/-- Whether the fragment at a place is there. -/
def holds (s : Slot) (index : Nat) : Bool :=
  (s.cells[index]?.bind Cell.payload).isSome

/-- Puts a payload into its place. -/
def fill (s : Slot) (index : Nat) (payload : Bytes) : Slot :=
  { s with
    cells := s.cells.modify index fun c => { c with payload := some payload }
    received := s.received + 1
    highest := max s.highest index }

/-- The payloads received, in the order of their places. -/
def contents (s : Slot) : Bytes :=
  (s.cells.filterMap Cell.payload).flatten

end Slot

end Framecast
