/-
Asking for fragments that are missing.

A round looks at the units from the oldest one that may still be handed on up to the
newest one seen, lowest first.  Of a unit nothing of which arrived, fragment zero is
asked for; of the newest unit, what is missing below its highest fragment, for the
rest may still be on its way; of any other unit, all that is missing.  A fragment is
asked for a limited number of times, and not again before the rearm time is over.
-/
import Framecast.Assembly.Basic

namespace Framecast

namespace Cell

/-- Whether a fragment may be asked for at `now`. -/
def isDue (c : Cell) (limits : Assembly.Limits) (now : Int) : Bool :=
  c.payload.isNone && c.requests < limits.maxRequests &&
    c.lastRequest.all fun t => limits.rearm ≤ Time.elapsed t now

/-- Notes a request. -/
def asked (c : Cell) (now : Int) : Cell :=
  { c with requests := c.requests + 1, lastRequest := some now }

/-- Asks for at most `budget` of the cells that are due and whose index is below
`limit`; the first cell has the index `index`. -/
def askAll (limits : Assembly.Limits) (now : Int) (limit : Nat) :
    (budget index : Nat) → List Cell → List Nat × List Cell
  | _, _, [] => ([], [])
  | budget, index, c :: rest =>
    if budget = 0 ∨ limit ≤ index then ([], c :: rest)
    else if c.isDue limits now then
      let (indices, cells) := askAll limits now limit (budget - 1) (index + 1) rest
      (index :: indices, c.asked now :: cells)
    else
      let (indices, cells) := askAll limits now limit budget (index + 1) rest
      (indices, c :: cells)

end Cell

namespace Slot

/-- The indices of a slot below which fragments are asked for. -/
def askLimit (s : Slot) (newest : Int32) : Nat :=
  if s.count = 0 then 1 else if s.id = newest then s.highest else s.count

/-- Asks for what is missing of a slot. -/
def ask (s : Slot) (limits : Assembly.Limits) (now : Int) (newest : Int32) (budget : Nat) :
    List Nat × Slot :=
  if s.taken || s.isComplete then ([], s) else
  let (indices, cells) := Cell.askAll limits now (s.askLimit newest) budget 0 s.cells
  (indices, { s with cells })

end Slot

namespace Assembly

/-- A fragment that is asked for: unit and index. -/
abbrev Wanted := Int32 × UInt16

/-- Asks for what is missing of one unit, at most `budget` fragments.  A unit without a
slot gets one, but for the newest, which always has one and is never opened here. -/
def askUnit (a : Assembly) (now : Int) (newest id : Int32) (budget : Nat) :
    List Nat × Assembly :=
  match a.slotOf? id with
  | some s =>
    let (indices, s) := s.ask a.limits now newest budget
    (indices, if indices.isEmpty then a else a.put s)
  | none =>
    if id = newest then ([], a) else
    let (indices, s) := Slot.ask { id } a.limits now newest budget
    (indices, (a.vacate id).put s)

/-- Asks for what is missing of `n` units from `id` on, at most `budget` fragments, and
adds it to what was asked for before. -/
def askFrom (now : Int) (newest : Int32) :
    (n : Nat) → (id : Int) → (budget : Nat) → Array Wanted → Assembly → Array Wanted × Assembly
  | 0, _, _, wanted, a => (wanted, a)
  | n + 1, id, budget, wanted, a =>
    if budget = 0 then (wanted, a) else
    let unit := Int32.ofInt id
    let (indices, a) := a.askUnit now newest unit budget
    let wanted := wanted ++ indices.map fun i => (unit, UInt16.ofNat i)
    askFrom now newest n (id + 1) (budget - indices.length) wanted a

/-- The first unit that a round looks at. -/
def askStart (a : Assembly) (newest : Int32) : Int :=
  let window := newest.toInt - ((a.limits.size : Int) - 1)
  match a.lastTaken, a.oldest with
  | some t, _ => max (t.toInt + 1) window
  | none, some m => max m.toInt window
  | none, none => newest.toInt

/-- One round of requests at `now`. -/
def request (a : Assembly) (now : Int) : List Wanted × Assembly :=
  match a.newest with
  | none => ([], a)
  | some newest =>
    let start := a.askStart newest
    let (wanted, a) :=
      askFrom now newest (newest.toInt - start + 1).toNat start a.limits.maxPerRound #[] a
    (wanted.toList,
      { a with counts := { a.counts with requested := a.counts.requested + wanted.size } })

end Assembly

end Framecast
