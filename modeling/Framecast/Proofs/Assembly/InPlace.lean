/-
The operations of a ring as they run in place, in fields of limited width.

A ring that is written in place has no second copy: a slot is written as soon as it is given
up, sized, filled or marked, also if the packet is then refused, and units are given up one
after another, each looked up at its position.  Its units are numbers of 32 bits, the requests
for a fragment one of 8 and its index one of 16.  Here the operations are told in this way.
Each access to an array and each step in a limited width gives nothing when it leaves the
range, and steps that stop at the ends of the range are told as such.

Nothing is never what they give: on a ring in use each of them gives exactly what the operation
on whole values gives.  For taking in a packet and for handing on a unit this is shown here,
for a round of requests in `Range.lean`.  A packet that is refused has changed nothing, since a
slot that was just opened or sized takes in any fragment (`receiveInPlace?_eq`).  Giving up one
unit after another is giving up all that pass the test (`discard_discard`).
-/
import Framecast.Proofs.Assembly.Representation

namespace Framecast

/-! ### Numbers of a limited width -/

/-- A number in 32 bits, if it fits. -/
def narrow? (x : Int) : Option Int32 :=
  if Int32.minValue.toInt ≤ x ∧ x ≤ Int32.maxValue.toInt then some (Int32.ofInt x) else none

/-- A number in 32 bits, the end of the range it lies beyond if it does not fit. -/
def saturate (x : Int) : Int32 :=
  Int32.ofInt (max Int32.minValue.toInt (min x Int32.maxValue.toInt))

theorem toInt_minValue : Int32.minValue.toInt = -2147483648 := by decide

theorem toInt_maxValue : Int32.maxValue.toInt = 2147483647 := by decide

theorem toInt_le (x : Int32) : x.toInt ≤ 2147483647 := by
  have h := x.toInt_lt
  omega

theorem le_toInt (x : Int32) : -2147483648 ≤ x.toInt := by
  have h := x.minValue_le_toInt
  rw [toInt_minValue] at h
  exact h

theorem narrow?_eq {x : Int} (hle : -2147483648 ≤ x) (hge : x ≤ 2147483647) :
    narrow? x = some (Int32.ofInt x) := by
  rw [narrow?, toInt_minValue, toInt_maxValue, if_pos ⟨hle, hge⟩]

theorem toInt_ofInt {x : Int} (hle : -2147483648 ≤ x) (hge : x ≤ 2147483647) :
    (Int32.ofInt x).toInt = x :=
  Int32.toInt_ofInt_of_le (by omega) (by omega)

theorem toInt_saturate (x : Int) :
    (saturate x).toInt = max (-2147483648) (min x 2147483647) := by
  rw [saturate, toInt_minValue, toInt_maxValue]
  exact toInt_ofInt (by omega) (by omega)

theorem toInt_max (x y : Int32) : (max x y).toInt = max x.toInt y.toInt := by
  have hmax : max x y = if x ≤ y then y else x := rfl
  rw [hmax]
  split
  · rename_i hle
    rw [Int32.le_iff_toInt_le] at hle
    omega
  · rename_i hnot
    rw [Int32.le_iff_toInt_le] at hnot
    omega

/-! ### Slots -/

namespace Slot

/-- Gives a slot of unknown size its cells; what was noted goes to the first of them. -/
def sized? (s : Slot) (count : Nat) : Option Slot :=
  if 0 < count then some (s.sized count) else none

/-- Asks for what is missing of a slot at the `n` places from `index` on, and adds it to what
was asked for before. -/
def askFrom? (limits : Assembly.Limits) (now : Int) :
    (n index : Nat) → Array Assembly.Wanted → Slot → Option (Array Assembly.Wanted × Slot)
  | 0, _, wanted, s => some (wanted, s)
  | n + 1, index, wanted, s =>
    if limits.maxPerRound ≤ wanted.size then some (wanted, s)
    else if s.holds index then askFrom? limits now n (index + 1) wanted s
    else do
      let c ← s.cells[index]?
      if limits.maxRequests ≤ c.requests then askFrom? limits now n (index + 1) wanted s
      else if c.lastRequest.any fun t => Time.elapsed t now < limits.rearm then
        askFrom? limits now n (index + 1) wanted s
      else
        let requests ← if c.requests + 1 < UInt8.size then some (c.requests + 1) else none
        let name ← if index < UInt16.size then some (UInt16.ofNat index) else none
        let cells := s.cells.set index { c with requests, lastRequest := some now }
        askFrom? limits now n (index + 1) (wanted.push (s.id, name)) { s with cells }

end Slot

namespace Assembly

/-! ### The ring -/

/-- What stands at the position of a unit, if there is such a place. -/
def look? (a : Assembly) (id : Int32) : Option (Option Slot) :=
  a.slots[a.position id]?

/-- Writes a slot at the position of its unit, if there is such a place. -/
def write? (a : Assembly) (s : Slot) : Option Assembly :=
  if a.position s.id < a.slots.size then some (a.put s) else none

/-- Gives up what stands at the position of a unit and writes a blank slot there. -/
def evict? (a : Assembly) (id : Int32) : Option Assembly := do
  match ← a.look? id with
  | some old =>
    let a := if old.taken || a.isFinished old.id then a else a.countSkipped 1
    a.write? { id }
  | none => a.write? { id }

/-- Puts a fragment into the slot `s`, which stands at the position of its unit. -/
def fillInPlace? (a : Assembly) (s : Slot) (p : Packet) : Option (Verdict × Assembly) := do
  let held ← s.fragments[p.index.toNat]?
  if held.isSome then some (.duplicate, a.countDuplicate) else
  let s := s.fill p.index.toNat p.payload
  let a ← a.write? s
  some (if s.isComplete then .completed else .stored, a.noteKept p)

/-- Puts a fragment into the slot that stands at the position of its unit. -/
def deliverInPlace? (a : Assembly) (p : Packet) : Option (Verdict × Assembly) := do
  match ← a.look? p.id with
  | none => some (.invalid, a)
  | some s =>
    if s.count = 0 then do
      let s ← s.sized? p.count.toNat
      let a ← a.write? s
      a.fillInPlace? s p
    else if s.count ≠ p.count.toNat then some (.invalid, a)
    else a.fillInPlace? s p

/-- Takes in a fragment. -/
def receiveInPlace? (a : Assembly) (p : Packet) : Option (Verdict × Assembly) :=
  if ¬ a.admits p then some (.invalid, a)
  else if a.isFinished p.id then some (.stale, if p.resent then a.countDuplicate else a)
  else do
    match ← a.look? p.id with
    | some s =>
      if p.id < s.id then some (.stale, a)
      else if s.id = p.id then a.deliverInPlace? p
      else do
        let a ← a.evict? p.id
        a.deliverInPlace? p
    | none => do
      let a ← a.evict? p.id
      a.deliverInPlace? p

/-- Gives a unit up, if it has its slot and was not taken. -/
def giveUpUnit? (a : Assembly) (id : Int32) : Option Assembly := do
  match ← a.look? id with
  | some s =>
    if s.id = id ∧ ¬ s.taken then do
      let a ← a.write? { s with taken := true }
      some (a.countSkipped 1)
    else some a
  | none => some a

/-- Gives up the `n` units from `id` on. -/
def giveUpFrom? : (n : Nat) → (id : Int32) → Assembly → Option Assembly
  | 0, _, a => some a
  | n + 1, id, a => do
    let a ← a.giveUpUnit? id
    let next ← narrow? (id.toInt + 1)
    giveUpFrom? n next a

/-- The first unit of the stretch as long as the ring that ends with `id`. -/
def windowStart? (a : Assembly) (id : Int32) : Option Int32 := do
  let size ← narrow? a.limits.size
  let reach ← narrow? (size.toInt - 1)
  some (saturate (id.toInt - reach.toInt))

/-- The lowest unit that taking `id` gives up. -/
def skipFrom? (a : Assembly) (id : Int32) : Option Int32 :=
  match a.lastTaken with
  | some t => some (saturate (t.toInt + 1))
  | none => a.windowStart? id

/-- Adds one to the count of units handed on. -/
def countCompleted (a : Assembly) : Assembly :=
  { a with counts := { a.counts with completed := a.counts.completed + 1 } }

/-- Hands on a whole unit. -/
def takeInPlace? (a : Assembly) (id : Int32) : Option (Option Bytes × Assembly) := do
  match ← a.look? id with
  | none => some (none, a)
  | some s =>
    if s.id ≠ id ∨ s.taken ∨ ¬ s.isComplete then some (none, a) else
    let a ← a.write? { s with taken := true }
    let a := a.countCompleted
    let first ← a.skipFrom? id
    let a ← giveUpFrom? (id.toInt - first.toInt).toNat first a
    let lastTaken := match a.lastTaken with | some t => if t < id then id else t | none => id
    some (some s.contents, { a with lastTaken := some lastTaken })

/-- Asks for what is missing of the slot `s`, which stands at the position of its unit, and
adds it to what was asked for before. -/
def askSlotInPlace? (a : Assembly) (now : Int) (newest : Int32) (wanted : Array Wanted)
    (s : Slot) : Option (Array Wanted × Assembly) := do
  if s.taken || s.isComplete then some (wanted, a) else
  let (wanted, s) ← s.askFrom? a.limits now (s.askLimit newest) 0 wanted
  let a ← a.write? s
  some (wanted, a)

/-- Asks for what is missing of one unit, and adds it to what was asked for before. -/
def askUnitInPlace? (a : Assembly) (now : Int) (newest id : Int32) (wanted : Array Wanted) :
    Option (Array Wanted × Assembly) := do
  let found ← a.look? id
  let present := found.any fun s => s.id = id
  if ¬ present ∧ id = newest then some (wanted, a) else
  let a ← if present then some a else a.evict? id
  match ← a.look? id with
  | none => some (wanted, a)
  | some s => a.askSlotInPlace? now newest wanted s

/-- Asks for what is missing of `n` units from `id` on.  The number of the last unit of all is
not counted up. -/
def askFromInPlace? (now : Int) (newest : Int32) :
    (n : Nat) → (id : Int32) → Array Wanted → Assembly → Option (Array Wanted × Assembly)
  | 0, _, wanted, a => some (wanted, a)
  | n + 1, id, wanted, a =>
    if a.limits.maxPerRound ≤ wanted.size then some (wanted, a) else do
    let (wanted, a) ← a.askUnitInPlace? now newest id wanted
    if id = Int32.maxValue then some (wanted, a) else
    let next ← narrow? (id.toInt + 1)
    askFromInPlace? now newest n next wanted a

/-- The first unit that a round looks at. -/
def askStart? (a : Assembly) (newest : Int32) : Option Int32 := do
  let window ← a.windowStart? newest
  some (match a.lastTaken, a.oldest with
    | some t, _ => max (saturate (t.toInt + 1)) window
    | none, some m => max m window
    | none, none => newest)

/-- One round of requests at `now`. -/
def requestInPlace? (a : Assembly) (now : Int) : Option (List Wanted × Assembly) :=
  match a.newest with
  | none => some ([], a)
  | some newest => do
    let start ← a.askStart? newest
    let (wanted, a) ←
      askFromInPlace? now newest (newest.toInt - start.toInt + 1).toNat start #[] a
    some (wanted.toList,
      { a with counts := { a.counts with requested := a.counts.requested + wanted.size } })

/-- Does one call in place. -/
def performInPlace? (a : Assembly) : Call → Option (Answer × Assembly)
  | .receive p => (a.receiveInPlace? p).map fun r => (.verdict r.1, r.2)
  | .take id => (a.takeInPlace? id).map fun r => (.unit r.1, r.2)
  | .request now => (a.requestInPlace? now).map fun r => (.wanted r.1, r.2)

/-! ### Looking and writing -/

namespace Placed

variable {a : Assembly}

theorem look?_eq (h : a.Placed) (id : Int32) : a.look? id = some (a.slotAt? id) := by
  have hlt : a.position id < a.slots.size := by
    rw [h.size_slots]
    exact position_lt h.size_pos id
  rw [look?, slotAt?, Array.getElem?_eq_getElem hlt]
  rfl

theorem write?_eq (h : a.Placed) (s : Slot) : a.write? s = some (a.put s) := by
  have hlt : a.position s.id < a.slots.size := by
    rw [h.size_slots]
    exact position_lt h.size_pos s.id
  rw [write?, if_pos hlt]

theorem slotAt?_put (h : a.Placed) {s : Slot} {id : Int32} (hid : s.id = id) :
    (a.put s).slotAt? id = some s :=
  (h.put s).slotAt?_eq_some.mpr ⟨h.mem_put.mpr (Or.inl rfl), by rw [hid]⟩

theorem vacate (h : a.Placed) (id : Int32) : (a.vacate id).Placed := by
  rw [vacate_eq]
  exact h.countSkipped _

theorem evict?_eq (h : a.Placed) (id : Int32) :
    a.evict? id = some ((a.vacate id).put { id }) := by
  unfold evict? Assembly.vacate
  rw [h.look?_eq]
  cases a.slotAt? id with
  | none => exact h.write?_eq { id }
  | some old =>
      show (if old.taken || a.isFinished old.id then a else a.countSkipped 1).write? { id } =
        some ((if old.taken || a.isFinished old.id then a else a.countSkipped 1).put { id })
      split
      · exact h.write?_eq { id }
      · exact (h.countSkipped 1).write?_eq { id }

end Placed

/-- Of two slots written at one position the first leaves no trace. -/
theorem put_put (a : Assembly) {s t : Slot} (h : s.id = t.id) : (a.put s).put t = a.put t := by
  have hposition : (a.put s).position t.id = a.position t.id := rfl
  unfold put at hposition ⊢
  rw [hposition, h, Array.setIfInBounds_setIfInBounds]

/-- To write a slot where it stands is to do nothing. -/
theorem Placed.put_self {a : Assembly} (h : a.Placed) {s : Slot} (hs : s ∈ a) : a.put s = a := by
  have hslots : (a.put s).slots = a.slots := by
    refine slots_eq_of_mem_iff (h.put s) h rfl fun t => ?_
    rw [h.mem_put]
    constructor
    · rintro (rfl | ⟨ht, -⟩)
      · exact hs
      · exact ht
    · intro ht
      by_cases hpos : a.position t.id = a.position s.id
      · exact Or.inl (h.eq_of_position_eq ht hs hpos)
      · exact Or.inr ⟨ht, hpos⟩
  calc a.put s = { a with slots := (a.put s).slots } := rfl
    _ = a := by rw [hslots]

/-! ### Taking a fragment in -/

/-- Filling a place of a slot that was written before. -/
theorem fillInPlace?_eq {a : Assembly} (h : a.Placed) {s : Slot} (hs : s.Sound) {p : Packet}
    (hi : p.index.toNat < s.count) :
    a.fillInPlace? s p =
      if s.holds p.index.toNat then some (.duplicate, a.countDuplicate) else
        some (if (s.fill p.index.toNat p.payload).isComplete then .completed else .stored,
          (a.put (s.fill p.index.toNat p.payload)).noteKept p) := by
  rw [fillInPlace?, Slot.getElem?_fragments_of_lt hs hi, Slot.holds_eq]
  simp only [h.write?_eq, Option.bind_eq_bind, Option.bind_some]

/-- **Delivering in place:** a slot that is sized in passing takes the fragment in. -/
theorem deliverInPlace?_eq {a : Assembly} (h : a.Placed) {s : Slot} (hs : s ∈ a) (hsound : s.Sound)
    {p : Packet} (hid : s.id = p.id) (hindex : p.index.toNat < p.count.toNat) :
    a.deliverInPlace? p = some (a.deliver s p) := by
  have hcount := Nat.zero_lt_of_lt hindex
  have hat : a.slotAt? p.id = some s := h.slotAt?_eq_some.mpr ⟨hs, by rw [hid]⟩
  unfold deliverInPlace? deliver
  rw [h.look?_eq, hat]
  by_cases hzero : s.count = 0
  · have hempty : (s.sized p.count.toNat).holds p.index.toNat = false := by
      rw [Slot.holds_eq, Slot.payload?_sized hsound hzero]
      rfl
    have hkept := fillInPlace?_eq (h.put (s.sized p.count.toNat)) (hsound.sized hzero hcount) hindex
    rw [put_put a (s := s.sized p.count.toNat)
      (t := (s.sized p.count.toNat).fill p.index.toNat p.payload) rfl] at hkept
    simp [hzero, Slot.sized?, hcount, h.write?_eq, hkept, hempty]
  · by_cases hsame : s.count = p.count.toNat
    · have hkept := fillInPlace?_eq h hsound (p := p) (by omega)
      by_cases hholds : s.holds p.index.toNat = true
      · simp [hcount.ne', hsame, hkept, hholds]
      · simp [hcount.ne', hsame, hkept, hholds]
    · simp [hzero, hsame]

/-- Delivering in place to a slot that was just opened. -/
theorem deliverInPlace?_put_blank {a : Assembly} (h : a.Placed) {p : Packet}
    (hindex : p.index.toNat < p.count.toNat) :
    (a.put { id := p.id }).deliverInPlace? p = some (a.deliver { id := p.id } p) := by
  rw [deliverInPlace?_eq (h.put _) (h.mem_put.mpr (Or.inl rfl)) (Slot.sound_blank p.id) rfl hindex]
  have hfits : ({ id := p.id } : Slot).Fits p :=
    ⟨Or.inl rfl, hindex, Finset.notMem_empty _⟩
  rw [deliver_of_fits _ (Slot.sound_blank p.id) hfits, deliver_of_fits _ (Slot.sound_blank p.id) hfits,
    put_put a (Slot.id_accept { id := p.id } p).symm]

/-- **Taking a fragment in, in place, is taking it in.**  A refused one has written nothing. -/
theorem receiveInPlace?_eq {a : Assembly} (h : a.Sound) (p : Packet) :
    a.receiveInPlace? p = some (a.receive p) := by
  unfold receiveInPlace? receive
  by_cases hadmits : a.admits p = true
  swap
  · rw [if_pos hadmits, if_pos hadmits]
  have hin : ¬ ¬ a.admits p = true := fun hc => hc hadmits
  have hindex := index_lt_of_admits hadmits
  rw [if_neg hin, if_neg hin]
  by_cases hfin : a.isFinished p.id = true
  · rw [if_pos hfin, if_pos hfin]
  rw [if_neg hfin, if_neg hfin, h.look?_eq]
  have hopened := deliverInPlace?_put_blank (h.toPlaced.vacate p.id) hindex
  cases hat : a.slotAt? p.id with
  | none =>
      have hvacate : a.vacate p.id = a := by rw [vacate, hat]
      rw [hvacate] at hopened
      simp [h.evict?_eq, hvacate, hopened]
  | some s =>
      obtain ⟨hs, -⟩ := h.slotAt?_eq_some.mp hat
      by_cases hlt : p.id < s.id
      · simp [hlt]
      by_cases hid : s.id = p.id
      · have hkept := deliverInPlace?_eq h.toPlaced hs (h.slot s hs) hid hindex
        simp [hid, hkept]
      · simp [hlt, hid, h.evict?_eq, hopened]

/-! ### Giving units up -/

/-- Gives up every unit whose slot passes a test. -/
def discard (a : Assembly) (test : Slot → Bool) : Assembly :=
  { a.countSkipped (a.slots.countP fun s => s.any test) with
    slots := a.slots.map fun s =>
      s.map fun s => if test s then { s with taken := true } else s }

theorem giveUp_eq (a : Assembly) (id : Int32) : a.giveUp id = a.discard (a.givesUp id) := rfl

theorem mem_discard {a : Assembly} {test : Slot → Bool} {t : Slot} :
    t ∈ a.discard test ↔ ∃ u ∈ a, t = if test u then { u with taken := true } else u := by
  have hslots : (a.discard test).slots = a.slots.map fun s =>
      s.map fun s => if test s then { s with taken := true } else s := rfl
  rw [mem_def, hslots, Array.mem_map]
  constructor
  · rintro ⟨o, ho, heq⟩
    obtain ⟨u, rfl, hu⟩ := Option.map_eq_some_iff.mp heq
    exact ⟨u, ho, hu.symm⟩
  · rintro ⟨u, hu, rfl⟩
    exact ⟨some u, hu, rfl⟩

theorem Placed.discard {a : Assembly} (h : a.Placed) (test : Slot → Bool) :
    (a.discard test).Placed where
  size_pos := h.size_pos
  size_slots := by
    show (a.slots.map _).size = a.limits.size
    rw [Array.size_map]
    exact h.size_slots
  placed := by
    intro i t ht
    change (a.slots.map _)[i]? = some (some t) at ht
    rw [Array.getElem?_map, Option.map_eq_some_iff] at ht
    obtain ⟨o, ho, heq⟩ := ht
    obtain ⟨u, rfl, rfl⟩ := Option.map_eq_some_iff.mp heq
    have hplace := h.placed i u ho
    split <;> exact hplace

/-- Only the slots of the ring are tested. -/
theorem discard_congr {a : Assembly} {test test' : Slot → Bool}
    (h : ∀ s ∈ a, test s = test' s) : a.discard test = a.discard test' := by
  have hmap : a.slots.map (fun s =>
      s.map fun s => if test s then { s with taken := true } else s) =
        a.slots.map fun s => s.map fun s => if test' s then { s with taken := true } else s := by
    refine Array.map_congr_left fun o ho => ?_
    cases o with
    | none => rfl
    | some s => simp [h s ho]
  have hcount : (a.slots.countP fun s => s.any test) = a.slots.countP fun s => s.any test' := by
    refine Array.countP_congr fun o ho => ?_
    cases o with
    | none => rfl
    | some s => simp [h s ho]
  rw [discard, discard, hmap, hcount]

theorem discard_of_forall {a : Assembly} {test : Slot → Bool} (h : ∀ s ∈ a, test s = false) :
    a.discard test = a := by
  have hmap : a.slots.map (fun s => s.map fun s =>
      if (fun _ => false) s = true then { s with taken := true } else s) = a.slots := by
    simp
  have hcount : (a.slots.countP fun s => s.any fun _ => false) = 0 := by
    simp
  have hnever : a.discard test = a.discard fun _ => false := discard_congr h
  rw [hnever, discard, hmap, hcount]
  rfl

/-- Elements counted by one of two tests that exclude each other. -/
theorem countP_add_countP {α : Type} {p q r : α → Bool} (l : List α)
    (h : ∀ x ∈ l, r x = (p x || q x) ∧ (p x = true → q x = false)) :
    l.countP p + l.countP q = l.countP r := by
  induction l with
  | nil => rfl
  | cons x rest ih =>
      obtain ⟨⟨hr, hexcl⟩, hrest⟩ := List.forall_mem_cons.mp h
      have hcount := ih hrest
      rw [List.countP_cons, List.countP_cons, List.countP_cons, hr]
      cases hp : p x with
      | true =>
          simp only [hexcl hp, Bool.or_false, if_true]
          simp
          omega
      | false =>
          simp only [Bool.false_or]
          simp
          omega

/-- **To give up twice is to give up once what passes either test,** if what was given up
passes no test any more. -/
theorem discard_discard {a : Assembly} {test test' : Slot → Bool}
    (h : ∀ s : Slot, test' { s with taken := true } = false) :
    (a.discard test).discard test' = a.discard fun s => test s || test' s := by
  have hmap : (a.slots.map fun s =>
      s.map fun s => if test s then { s with taken := true } else s).map (fun s =>
        s.map fun s => if test' s then { s with taken := true } else s) =
      a.slots.map fun s =>
        s.map fun s => if test s || test' s then { s with taken := true } else s := by
    rw [Array.map_map]
    refine Array.map_congr_left fun o _ => ?_
    cases o with
    | none => rfl
    | some s => cases htest : test s <;> simp [htest, h]
  have hcount : (a.slots.countP fun s => s.any test) +
      ((a.slots.map fun s =>
        s.map fun s => if test s then { s with taken := true } else s).countP fun s =>
          s.any test') = a.slots.countP fun s => s.any fun s => test s || test' s := by
    rw [Array.countP_map, ← Array.countP_toList, ← Array.countP_toList, ← Array.countP_toList]
    refine countP_add_countP _ fun o _ => ?_
    cases o with
    | none => simp
    | some s => cases htest : test s <;> simp [htest, h]
  simp only [discard, countSkipped, hmap, Nat.add_assoc, hcount]

/-- The unit of a slot is to be given up by itself. -/
def isAlone (id : Int32) (s : Slot) : Bool :=
  s.id = id && !s.taken

/-- The unit of a slot is one of those from `first` up to `stop` and was not taken. -/
def isWithin (first stop : Int) (s : Slot) : Bool :=
  first ≤ s.id.toInt && s.id.toInt < stop && !s.taken

theorem isWithin_taken (first stop : Int) (s : Slot) :
    isWithin first stop { s with taken := true } = false := by
  simp [isWithin]

/-- To give up a single unit is to mark its slot. -/
theorem discard_isAlone {a : Assembly} (h : a.Placed) {s : Slot} (hs : s ∈ a)
    (hopen : s.taken = false) :
    a.discard (isAlone s.id) = (a.put { s with taken := true }).countSkipped 1 := by
  have htest : isAlone s.id s = true := by simp [isAlone, hopen]
  have hother : ∀ u ∈ a, u ≠ s → isAlone s.id u = false := by
    intro u hu hne
    have hid : u.id ≠ s.id := fun hid => hne (h.eq_of_id_eq hu hs hid)
    simp [isAlone, hid]
  have hslots : (a.discard (isAlone s.id)).slots = (a.put { s with taken := true }).slots := by
    refine (h.discard _).slots_eq_of_mem_iff (h.put _) rfl fun t => ?_
    rw [h.mem_put, mem_discard]
    constructor
    · rintro ⟨u, hu, rfl⟩
      by_cases hus : u = s
      · rw [hus, if_pos htest]
        exact Or.inl rfl
      · rw [hother u hu hus]
        exact Or.inr ⟨hu, fun hpos => hus (h.eq_of_position_eq hu hs hpos)⟩
    · rintro (rfl | ⟨ht, hne⟩)
      · exact ⟨s, hs, by rw [if_pos htest]⟩
      · refine ⟨t, ht, ?_⟩
        rw [hother t ht fun hts => hne (by rw [hts])]
        rfl
  have hcount : (a.slots.countP fun o => o.any (isAlone s.id)) = 1 := by
    rw [← card_pick h, Finset.card_eq_one]
    refine ⟨s.id, Finset.ext fun x => ?_⟩
    rw [mem_pick, Finset.mem_singleton]
    constructor
    · rintro ⟨u, hu, hpass, rfl⟩
      by_contra hne
      rw [hother u hu fun hus => hne (by rw [hus])] at hpass
      exact Bool.noConfusion hpass
    · rintro rfl
      exact ⟨s, hs, htest, rfl⟩
  calc a.discard (isAlone s.id)
      = { a.countSkipped 1 with slots := (a.discard (isAlone s.id)).slots } := by
        rw [← hcount]
        rfl
    _ = (a.put { s with taken := true }).countSkipped 1 := by
        rw [hslots]
        rfl

theorem giveUpUnit?_eq {a : Assembly} (h : a.Placed) (id : Int32) :
    a.giveUpUnit? id = some (a.discard (isAlone id)) := by
  unfold giveUpUnit?
  rw [h.look?_eq]
  cases hat : a.slotAt? id with
  | none =>
      have hnone : ∀ u ∈ a, isAlone id u = false := by
        intro u hu
        have hid : u.id ≠ id := fun hid => h.slotAt?_eq_none.mp hat u hu (by rw [hid])
        simp [isAlone, hid]
      rw [discard_of_forall hnone]
      rfl
  | some s =>
      obtain ⟨hs, hpos⟩ := h.slotAt?_eq_some.mp hat
      simp only [Option.bind_eq_bind, Option.bind_some]
      by_cases halone : s.id = id ∧ ¬ s.taken = true
      · obtain ⟨rfl, htaken⟩ := halone
        rw [if_pos ⟨rfl, htaken⟩, h.write?_eq, discard_isAlone h hs (by simpa using htaken)]
        rfl
      · have hnone : ∀ u ∈ a, isAlone id u = false := by
          intro u hu
          by_contra hc
          simp only [Bool.not_eq_false, isAlone, Bool.and_eq_true, decide_eq_true_eq,
            Bool.not_eq_true'] at hc
          have hus : u = s := h.eq_of_position_eq hu hs (by rw [hc.1, hpos])
          rw [hus] at hc
          exact halone ⟨hc.1, by simp [hc.2]⟩
        rw [if_neg halone, discard_of_forall hnone]

/-- **Giving up one unit after another.** -/
theorem giveUpFrom?_eq {n : Nat} {id : Int32} {a : Assembly} (h : a.Placed)
    (hend : id.toInt + n ≤ 2147483647) :
    giveUpFrom? n id a = some (a.discard (isWithin id.toInt (id.toInt + n))) := by
  induction n generalizing id a with
  | zero =>
      have hnone : a.discard (isWithin id.toInt (id.toInt + (0 : Nat))) = a := by
        refine discard_of_forall fun s _ => ?_
        simp only [isWithin, Bool.and_eq_false_iff, decide_eq_false_iff_not]
        left
        omega
      rw [hnone]
      rfl
  | succ n ih =>
      have hle := le_toInt id
      have hnext : (Int32.ofInt (id.toInt + 1)).toInt = id.toInt + 1 :=
        toInt_ofInt (by omega) (by omega)
      rw [giveUpFrom?, giveUpUnit?_eq h, narrow?_eq (by omega) (by omega)]
      simp only [Option.bind_eq_bind, Option.bind_some]
      rw [ih (h.discard _) (by omega), discard_discard (isWithin_taken _ _)]
      refine congrArg some (discard_congr fun s _ => ?_)
      rw [hnext, Bool.eq_iff_iff]
      simp only [isAlone, isWithin, Bool.or_eq_true, Bool.and_eq_true, decide_eq_true_eq,
        ← Int32.toInt_inj]
      cases s.taken with
      | false =>
          simp
          omega
      | true => simp

/-! ### Handing a unit on -/

theorem windowStart?_eq {a : Assembly} (hpos : 0 < a.limits.size)
    (hsize : a.limits.size ≤ 2147483647) (id : Int32) :
    a.windowStart? id = some (saturate (id.toInt - ((a.limits.size : Int) - 1))) := by
  have hwhole : (Int32.ofInt (a.limits.size : Int)).toInt = a.limits.size :=
    toInt_ofInt (by omega) (by omega)
  have hreach : (Int32.ofInt ((a.limits.size : Int) - 1)).toInt = (a.limits.size : Int) - 1 :=
    toInt_ofInt (by omega) (by omega)
  have hnarrow : narrow? (a.limits.size : Int) = some (Int32.ofInt (a.limits.size : Int)) :=
    narrow?_eq (by omega) (by omega)
  have hnarrow' : narrow? ((a.limits.size : Int) - 1) =
      some (Int32.ofInt ((a.limits.size : Int) - 1)) := narrow?_eq (by omega) (by omega)
  simp only [windowStart?, hnarrow, Option.bind_eq_bind, Option.bind_some, hwhole, hnarrow', hreach]

theorem skipFrom?_eq {a : Assembly} (hpos : 0 < a.limits.size)
    (hsize : a.limits.size ≤ 2147483647) (id : Int32) :
    a.skipFrom? id = some (saturate (a.skipFrom id)) := by
  unfold skipFrom? skipFrom
  cases a.lastTaken with
  | some t => rfl
  | none => exact windowStart?_eq hpos hsize id

/-- The units up to `id` that are given up one after another are those that `id` gives up. -/
theorem giveUpFrom?_skipFrom {a : Assembly} (h : a.Placed) (id : Int32) :
    giveUpFrom? (id.toInt - (saturate (a.skipFrom id)).toInt).toNat (saturate (a.skipFrom id)) a =
      some (a.giveUp id) := by
  have hfirst := toInt_saturate (a.skipFrom id)
  have hid := toInt_le id
  rw [giveUpFrom?_eq h (by omega), giveUp_eq]
  refine congrArg some (discard_congr fun s _ => ?_)
  have hmin := le_toInt s.id
  rw [Bool.eq_iff_iff]
  simp only [isWithin, givesUp, Bool.and_eq_true, decide_eq_true_eq, Int32.lt_iff_toInt_lt]
  refine and_congr_left fun _ => ?_
  omega

/-- **Handing a unit on in place is handing it on.** -/
theorem takeInPlace?_eq {a : Assembly} (h : a.Placed) (hsize : a.limits.size ≤ 2147483647)
    (id : Int32) :
    a.takeInPlace? id =
      some (match a.take? id with | some (b, c) => (some b, c) | none => (none, a)) := by
  unfold takeInPlace?
  rw [h.look?_eq]
  simp only [Option.bind_eq_bind, Option.bind_some]
  cases hat : a.slotAt? id with
  | none =>
      have hof : a.slotOf? id = none := by rw [slotOf?, hat]; rfl
      simp only [take?, hof]
  | some s =>
      by_cases hid : s.id = id
      swap
      · have hof : a.slotOf? id = none := by
          rw [slotOf?, hat]
          simp [hid]
        simp only [take?, hof, if_pos (Or.inl hid)]
      have hof : a.slotOf? id = some s := by
        rw [slotOf?, hat]
        simp [hid]
      by_cases hclosed : s.taken = true ∨ ¬ s.isComplete = true
      · simp only [take?, hof, if_pos hclosed, if_pos (Or.inr hclosed)]
      have hopen : ¬ (s.id ≠ id ∨ s.taken = true ∨ ¬ s.isComplete = true) := by
        rintro (hne | hc)
        · exact hne hid
        · exact hclosed hc
      have hput := h.put { s with taken := true }
      have hplaced : (a.put { s with taken := true }).countCompleted.Placed :=
        ⟨hput.size_pos, hput.size_slots, hput.placed⟩
      have hfirst := skipFrom?_eq hplaced.size_pos hsize id
      have hgiven := giveUpFrom?_skipFrom hplaced id
      simp only [take?, hof, if_neg hclosed, if_neg hopen, h.write?_eq, Option.bind_some, hfirst,
        hgiven]
      rfl

end Assembly

end Framecast
