/-
Fragments coming in, and whole units going out.

A fragment is refused before anything else is looked at if it cannot belong to the
channel, then set aside if its unit is finished or its slot belongs to a newer unit.
Handing a unit on finishes all older ones; those still in their slots count as
skipped.
-/
import Framecast.Assembly.Basic

namespace Framecast

/-- What became of a fragment. -/
inductive Verdict where
  /-- Kept; its unit still lacks others. -/
  | stored
  /-- It was there already. -/
  | duplicate
  /-- Kept, and its unit is whole now. -/
  | completed
  /-- Its unit is finished, or its slot belongs to a newer one. -/
  | stale
  /-- It cannot belong to a unit of this channel. -/
  | invalid
  deriving DecidableEq, Repr, Inhabited

namespace Assembly

/-- Whether a packet can belong to a unit of this channel. -/
def admits (a : Assembly) (p : Packet) : Bool :=
  p.channel = a.channel && p.count ≠ 0 && p.index < p.count &&
    p.count.toNat ≤ a.limits.maxFragments && p.payload.length ≤ Packet.maxPayload

/-- Accounts for a fragment that was kept. -/
def noteKept (a : Assembly) (p : Packet) : Assembly :=
  let counts :=
    if p.resent then { a.counts with resent := a.counts.resent + 1 }
    else { a.counts with fresh := a.counts.fresh + 1 }
  { a with
    counts
    newest := some (match a.newest with | some n => if n < p.id then p.id else n | none => p.id)
    oldest := some (match a.oldest with | some n => if p.id < n then p.id else n | none => p.id) }

/-- Puts a fragment into the slot of its unit, which need not be in the ring yet. -/
def deliver (a : Assembly) (s : Slot) (p : Packet) : Verdict × Assembly :=
  if s.count ≠ 0 ∧ s.count ≠ p.count.toNat then (.invalid, a) else
  let s := if s.count = 0 then s.sized p.count.toNat else s
  if s.holds p.index.toNat then (.duplicate, a.countDuplicate) else
  let s := s.fill p.index.toNat p.payload
  (if s.isComplete then .completed else .stored, (a.put s).noteKept p)

/-- Takes in a fragment. -/
def receive (a : Assembly) (p : Packet) : Verdict × Assembly :=
  if ¬ a.admits p then (.invalid, a)
  else if a.isFinished p.id then (.stale, if p.resent then a.countDuplicate else a)
  else
    match a.slotAt? p.id with
    | some s =>
      if p.id < s.id then (.stale, a)
      else if s.id = p.id then a.deliver s p
      else (a.vacate p.id).deliver { id := p.id } p
    | none => a.deliver { id := p.id } p

/-- The lowest unit that taking `id` gives up. -/
def skipFrom (a : Assembly) (id : Int32) : Int :=
  match a.lastTaken with
  | some t => t.toInt + 1
  | none => id.toInt - ((a.limits.size : Int) - 1)

/-- Whether taking `id` gives this slot up. -/
def givesUp (a : Assembly) (id : Int32) (s : Slot) : Bool :=
  a.skipFrom id ≤ s.id.toInt && s.id < id && !s.taken

/-- Marks the slots that taking `id` gives up. -/
def giveUp (a : Assembly) (id : Int32) : Assembly :=
  let lost := a.slots.countP fun s => s.any (a.givesUp id)
  let slots := a.slots.map fun s =>
    s.map fun s => if a.givesUp id s then { s with taken := true } else s
  { a.countSkipped lost with slots }

/-- Hands on a whole unit. -/
def take? (a : Assembly) (id : Int32) : Option (Bytes × Assembly) :=
  match a.slotOf? id with
  | none => none
  | some s =>
    if s.taken ∨ ¬ s.isComplete then none else
    let a := (a.put { s with taken := true }).giveUp id
    let lastTaken := match a.lastTaken with | some t => if t < id then id else t | none => id
    some (s.contents,
      { a with
        counts := { a.counts with completed := a.counts.completed + 1 }
        lastTaken := some lastTaken })

end Assembly

end Framecast
