/-
What a round of requests does, told from what the ring holds.

`dues` follows the walk of a round.  `Missing` says without any walk which fragments there
are to ask for: the unit is one the ring still waits for, the fragment is not there though
it should have come, and it may be asked for once more and now.  In a ring in use the two
are the same, since its slots know how far their units have come: `Slot.Gauged`.

A round visits units as long as its budget is not used up.  To each unit it visits it gives
the slot that the unit has, or a blank one, with the requests noted, and it leaves every
other place of the ring alone.
-/
import Framecast.Proofs.Assembly.Extent
import Framecast.Proofs.Assembly.Record
import Framecast.Proofs.Assembly.Wanted

namespace Framecast

/-! ### One slot -/

namespace Slot

/-- The cell at a place, a blank one where there is none. -/
def cellAt (s : Slot) (i : Nat) : Cell :=
  s.cells[i]?.getD {}

/-- The places of a slot that should be filled by now lie below this: the first one if
nothing came, those before the last that came if the unit is the newest one, else all. -/
def reach (s : Slot) (newest : Int32) : Nat :=
  if s.filled = ∅ then 1 else if s.id = newest then s.filled.sup fun i => i else s.count

/-- The counters of a slot fit in their fields, and say how far the unit has come. -/
structure Gauged (s : Slot) : Prop where
  sound : s.Sound
  topped : s.Topped
  count_lt : s.count < 65536
  /-- The number of fragments is known only from a fragment. -/
  unfilled : s.filled = ∅ → s.count = 0

namespace Gauged

variable {s t : Slot} {p : Packet}

theorem blank (id : Int32) : ({ id } : Slot).Gauged where
  sound := sound_blank id
  topped := topped_blank id
  count_lt := Nat.zero_lt_succ _
  unfilled _ := rfl

theorem accept (h : s.Gauged) (hf : s.Fits p) : (s.accept p).Gauged where
  sound := hf.sound_accept h.sound
  topped := h.topped.accept h.sound hf
  count_lt := by
    rw [hf.count_accept h.sound]
    exact p.count.toNat_lt
  unfilled hnone := by
    rw [hf.filled_accept h.sound] at hnone
    exact absurd hnone (Finset.insert_ne_empty _ _)

theorem like (h : s.Gauged) (hlike : s.Like t) : t.Gauged where
  sound := hlike.sound h.sound
  topped := h.topped.like hlike
  count_lt := by
    rw [hlike.count_eq]
    exact h.count_lt
  unfilled hnone := by
    rw [hlike.count_eq]
    exact h.unfilled (hlike.filled_eq ▸ hnone)

theorem taken (h : s.Gauged) : ({ s with taken := true } : Slot).Gauged where
  sound := ⟨h.sound.length_cells, h.sound.received_eq, h.sound.unsized⟩
  topped := h.topped
  count_lt := h.count_lt
  unfilled := h.unfilled

theorem askLimit_eq (h : s.Gauged) (newest : Int32) : s.askLimit newest = s.reach newest := by
  unfold askLimit reach
  by_cases hcount : s.count = 0
  · rw [if_pos hcount, if_pos (h.sound.filled_of_unsized hcount)]
  · rw [if_neg hcount, if_neg fun hnone => hcount (h.unfilled hnone), ← h.topped]

theorem reach_le (h : s.Gauged) (newest : Int32) : s.reach newest ≤ s.cells.length := by
  rw [h.sound.length_cells]
  unfold reach
  split
  · exact Nat.le_max_right _ _
  · split
    · rename_i hne _
      have hmem := h.sound.filled_subset (h.topped.highest_mem hne)
      rw [h.topped, Finset.mem_range] at hmem
      omega
    · exact Nat.le_max_left _ _

theorem reach_lt (h : s.Gauged) (newest : Int32) : s.reach newest < 65536 := by
  have hle := h.reach_le newest
  have hlt := h.count_lt
  rw [h.sound.length_cells] at hle
  omega

end Gauged

theorem isNone_cellAt {s : Slot} {i : Nat} :
    (s.cellAt i).payload.isNone = true ↔ i ∉ s.filled := by
  rw [mem_filled_iff_payload?, payload?, cellAt]
  cases s.cells[i]? with
  | none => simp
  | some c => simp [Option.eq_none_iff_forall_ne_some]

/-- What is due of a slot, without its counters. -/
theorem Gauged.mem_due_iff {s : Slot} (h : s.Gauged) {limits : Assembly.Limits} {now : Int}
    {newest : Int32} {i : Nat} :
    i ∈ s.due limits now newest ↔
      s.taken = false ∧ s.isComplete = false ∧ i ∉ s.filled ∧ i < s.reach newest ∧
        (s.cellAt i).requests < limits.maxRequests ∧
        ∀ t, (s.cellAt i).lastRequest = some t → limits.rearm ≤ Time.elapsed t now := by
  have hdue (hi : i < s.reach newest) : (∃ c, s.cells[i]? = some c ∧ c.isDue limits now = true) ↔
      (s.cellAt i).isDue limits now = true := by
    have hlt := Nat.lt_of_lt_of_le hi (h.reach_le newest)
    simp [cellAt, List.getElem?_eq_getElem hlt]
  have hcell : (s.cellAt i).isDue limits now = true ↔ i ∉ s.filled ∧
      (s.cellAt i).requests < limits.maxRequests ∧
      ∀ t, (s.cellAt i).lastRequest = some t → limits.rearm ≤ Time.elapsed t now := by
    rw [Cell.isDue, Bool.and_eq_true, Bool.and_eq_true, isNone_cellAt, decide_eq_true_eq,
      and_assoc]
    cases (s.cellAt i).lastRequest <;> simp
  rw [mem_due, h.askLimit_eq]
  constructor
  · rintro ⟨htaken, hcomplete, hi, hc⟩
    obtain ⟨hempty, hrest⟩ := hcell.mp ((hdue hi).mp hc)
    exact ⟨htaken, hcomplete, hempty, hi, hrest⟩
  · rintro ⟨htaken, hcomplete, hempty, hi, hrest⟩
    exact ⟨htaken, hcomplete, hi, (hdue hi).mpr (hcell.mpr ⟨hempty, hrest⟩)⟩

end Slot

namespace Assembly

/-! ### What there is to ask for -/

/-- The slot of a unit, or the blank one it would get. -/
def unit (a : Assembly) (id : Int32) : Slot :=
  (a.slotOf? id).getD { id }

/-- The ring waits for the unit: it is seen, not too old to have a slot, and younger than
the last unit handed on or, while none was, no older than the oldest one seen. -/
structure Awaits (a : Assembly) (newest id : Int32) : Prop where
  seen : id ≤ newest
  near : newest.toInt - a.limits.size + 1 ≤ id.toInt
  pending : ∀ t, a.lastTaken = some t → t < id
  begun : a.lastTaken = none → ∀ m, a.oldest = some m → m ≤ id

/-- The fragment is one to ask for at `now`. -/
structure Missing (a : Assembly) (now : Int) (newest : Int32) (w : Wanted) : Prop where
  awaited : a.Awaits newest w.1
  untaken : (a.unit w.1).taken = false
  incomplete : (a.unit w.1).isComplete = false
  empty : w.2.toNat ∉ (a.unit w.1).filled
  overdue : w.2.toNat < (a.unit w.1).reach newest
  tries : ((a.unit w.1).cellAt w.2.toNat).requests < a.limits.maxRequests
  rested : ∀ t, ((a.unit w.1).cellAt w.2.toNat).lastRequest = some t →
    a.limits.rearm ≤ Time.elapsed t now

/-- A round that asks for what is missing gets as far as the unit: what is missing of older
units does not use up its budget. -/
structure Visits (a : Assembly) (newest : Int32) (missing : List Wanted) (id : Int32) : Prop where
  awaited : a.Awaits newest id
  affordable : (missing.countP fun w => w.1 < id) < a.limits.maxPerRound

/-- The indices that a list of fragments names for a unit. -/
def indicesFor (asked : List Wanted) (id : Int32) : List Nat :=
  (asked.filter fun w => w.1 = id).map fun w => w.2.toNat

theorem mem_indicesFor {asked : List Wanted} {id : Int32} {i : UInt16} :
    i.toNat ∈ indicesFor asked id ↔ (id, i) ∈ asked := by
  simp only [indicesFor, List.mem_map, List.mem_filter, decide_eq_true_eq]
  constructor
  · rintro ⟨w, ⟨hw, rfl⟩, hi⟩
    rw [← UInt16.toNat_inj.mp hi]
    exact hw
  · intro hw
    exact ⟨(id, i), ⟨hw, rfl⟩, rfl⟩

theorem dueOf_eq_due_unit {a : Assembly} {newest id : Int32}
    (hnewest : id = newest → a.slotOf? id ≠ none) (now : Int) :
    a.dueOf now newest id = (a.unit id).due a.limits now newest := by
  unfold dueOf unit
  cases hof : a.slotOf? id with
  | some s => rfl
  | none =>
      have hne : id ≠ newest := fun hid => hnewest hid hof
      simp only [if_neg hne, Option.getD_none]

theorem awaits_iff {a : Assembly} {newest id : Int32} (holdest : a.oldest ≠ none) :
    a.Awaits newest id ↔ a.askStart newest ≤ id.toInt ∧ id ≤ newest := by
  obtain ⟨m, hm⟩ := Option.ne_none_iff_exists'.mp holdest
  have hawaits : a.Awaits newest id ↔ id ≤ newest ∧ newest.toInt - a.limits.size + 1 ≤ id.toInt ∧
      (∀ t, a.lastTaken = some t → t < id) ∧ (a.lastTaken = none → m ≤ id) := by
    constructor
    · intro h
      exact ⟨h.seen, h.near, h.pending, fun hlast => h.begun hlast m hm⟩
    · rintro ⟨hseen, hnear, hpending, hbegun⟩
      refine ⟨hseen, hnear, hpending, fun hlast n hn => ?_⟩
      rw [hm, Option.some.injEq] at hn
      exact hn ▸ hbegun hlast
  rw [hawaits]
  unfold askStart
  cases a.lastTaken with
  | some t =>
      simp only [Option.some.injEq, forall_eq', reduceCtorEq, false_implies, and_true,
        Int32.lt_iff_toInt_lt, Int32.le_iff_toInt_le]
      omega
  | none =>
      simp only [hm, reduceCtorEq, false_implies, implies_true, true_and, forall_const,
        Int32.le_iff_toInt_le]
      omega

/-! ### What the walk leaves at the places of the ring -/

section AskUnit

variable {b : Assembly} {now : Int} {newest id : Int32} {budget : Nat}

/-- A unit that is visited has a slot afterwards, in which its requests are noted. -/
theorem slots_askUnit (h : b.Placed) (hnewest : id = newest → b.slotOf? id ≠ none) :
    (b.askUnit now newest id budget).2.slots[b.position id]? =
      some (some ((b.unit id).asked ((b.dueOf now newest id).take budget) now)) := by
  have hlt : b.position id < b.slots.size := by
    rw [h.size_slots]
    exact position_lt h.size_pos id
  have hput {c : Assembly} {s : Slot} (hslots : c.slots = b.slots) (hlimits : c.limits = b.limits)
      (hid : s.id = id) : (c.put s).slots[b.position id]? = some (some s) := by
    have hpos : c.position s.id = b.position id := by rw [position, hlimits, hid, position]
    rw [put, hpos, hslots, Array.getElem?_setIfInBounds_self_of_lt hlt]
  unfold askUnit dueOf unit
  cases hof : b.slotOf? id with
  | some s =>
      obtain ⟨hs, hid⟩ := h.slotOf?_eq_some.mp hof
      simp only [Slot.ask_eq, Option.getD_some]
      by_cases hnone : ((s.due b.limits now newest).take budget).isEmpty = true
      · rw [if_pos hnone, List.isEmpty_iff.mp hnone, Slot.asked_nil, ← hid]
        exact h.getElem?_position hs
      · rw [if_neg hnone]
        exact hput rfl rfl hid
  | none =>
      have hne : id ≠ newest := fun hid => hnewest hid hof
      simp only [if_neg hne, Slot.ask_eq, Option.getD_none]
      refine hput ?_ ?_ rfl
      · rw [vacate_eq]
        rfl
      · rw [vacate_eq]
        rfl

/-- The other places are left alone. -/
theorem slots_askUnit_of_ne (h : b.Placed) {i : Nat} (hi : b.position id ≠ i) :
    (b.askUnit now newest id budget).2.slots[i]? = b.slots[i]? := by
  rcases askUnit_snd h now newest id budget with ⟨hsame, -⟩ | ⟨s, -, hid, n, hput⟩
  · rw [hsame]
  · have hpos : (b.countSkipped n).position
        (s.asked ((b.dueOf now newest id).take budget) now).id ≠ i := by
      rw [Slot.id_asked, hid]
      exact hi
    rw [hput, put, Array.getElem?_setIfInBounds_ne hpos]
    rfl

end AskUnit

/-- A walk over `n` units from `id` on gets as far as the unit `x`. -/
structure Reaches (b : Assembly) (now : Int) (newest : Int32) (n : Nat) (id : Int) (budget : Nat)
    (x : Int32) : Prop where
  le : id ≤ x.toInt
  lt : x.toInt < id + n
  affordable : ((b.dues now newest n id).countP fun w => w.1 < x) < budget

section AskFrom

variable {b : Assembly} {now : Int} {newest x : Int32} {n : Nat} {id : Int} {budget : Nat}

theorem countP_dues_eq_zero (hs : Stretch n id) (hx : x.toInt ≤ id) :
    ((b.dues now newest n id).countP fun w => w.1 < x) = 0 := by
  rw [List.countP_eq_zero]
  intro w hw
  obtain ⟨hle, -, -⟩ := (mem_dues hs).mp hw
  simp only [decide_eq_true_eq, Int32.lt_iff_toInt_lt]
  omega

theorem countP_dues_succ (b : Assembly) (now : Int) (newest : Int32) (hs : Stretch (n + 1) id)
    (hx : id < x.toInt) :
    ((b.dues now newest (n + 1) id).countP fun w => w.1 < x) =
      (b.dueOf now newest (Int32.ofInt id)).length +
        (b.dues now newest n (id + 1)).countP fun w => w.1 < x := by
  have hfirst : Int32.ofInt id < x := by
    rw [Int32.lt_iff_toInt_lt, hs.toInt_ofInt]
    exact hx
  rw [dues, List.countP_append, List.countP_map]
  congr 1
  rw [List.countP_eq_length]
  intro i _
  exact decide_eq_true hfirst

/-- A walk with a budget visits its first unit. -/
theorem reaches_first (hs : Stretch (n + 1) id) (hbudget : budget ≠ 0) :
    b.Reaches now newest (n + 1) id budget (Int32.ofInt id) := by
  have hunit := hs.toInt_ofInt
  refine ⟨by omega, by omega, ?_⟩
  rw [countP_dues_eq_zero hs (by omega)]
  omega

/-- Past its first unit a walk is one from the next unit on. -/
theorem reaches_succ (h : b.Placed) (hn : n + 1 ≤ b.limits.size) (hs : Stretch (n + 1) id)
    (hx : id < x.toInt) :
    b.Reaches now newest (n + 1) id budget x ↔
      (b.askUnit now newest (Int32.ofInt id) budget).2.Reaches now newest n (id + 1)
        (budget - (b.dueOf now newest (Int32.ofInt id)).length) x := by
  have hcount := b.countP_dues_succ now newest hs hx
  constructor
  · rintro ⟨-, hlt, haffordable⟩
    refine ⟨by omega, by omega, ?_⟩
    rw [dues_askUnit h hn hs]
    omega
  · rintro ⟨-, hlt, haffordable⟩
    rw [dues_askUnit h hn hs] at haffordable
    exact ⟨by omega, by omega, by omega⟩

/-- A walk goes on from what it made of its first unit. -/
theorem askFrom_succ (b : Assembly) (now : Int) (newest : Int32) (n : Nat) (id : Int)
    (hbudget : budget ≠ 0) (acc : Array Wanted) :
    ∃ acc' : Array Wanted, (askFrom now newest (n + 1) id budget acc b).2 =
      (askFrom now newest n (id + 1) (budget - (b.dueOf now newest (Int32.ofInt id)).length) acc'
        (b.askUnit now newest (Int32.ofInt id) budget).2).2 := by
  have hlength : budget - (b.askUnit now newest (Int32.ofInt id) budget).1.length =
      budget - (b.dueOf now newest (Int32.ofInt id)).length := by
    rw [askUnit_fst, List.length_take]
    omega
  rw [askFrom, if_neg hbudget, ← hlength]
  exact ⟨_, rfl⟩

theorem position_askUnit (h : b.Placed) (unit x : Int32) :
    (b.askUnit now newest unit budget).2.position x = b.position x := by
  rw [position, position, limits_askUnit h]

/-- **Places that belong to no unit visited are left alone.** -/
theorem slots_askFrom_of_not_reached (h : b.Placed) (hn : n ≤ b.limits.size) (hs : Stretch n id)
    (acc : Array Wanted) {i : Nat}
    (hi : ∀ x, b.Reaches now newest n id budget x → b.position x ≠ i) :
    (askFrom now newest n id budget acc b).2.slots[i]? = b.slots[i]? := by
  induction n generalizing id budget acc b with
  | zero => rfl
  | succ n ih =>
      by_cases hbudget : budget = 0
      · rw [askFrom, if_pos hbudget]
      obtain ⟨acc', hwalk⟩ := b.askFrom_succ now newest n id hbudget acc
      have hsize : n ≤ (b.askUnit now newest (Int32.ofInt id) budget).2.limits.size := by
        rw [limits_askUnit h]
        omega
      rw [hwalk, ih (h.askUnit _ _ _ _) hsize hs.tail, slots_askUnit_of_ne h]
      · exact hi _ (reaches_first hs hbudget)
      · intro x hx
        rw [position_askUnit h]
        have hlt := hx.le
        exact hi x ((reaches_succ h hn hs (by omega)).mpr hx)

/-- **Every unit visited has a slot afterwards, in which its requests are noted.** -/
theorem slots_askFrom_of_reached (h : b.Placed) (hn : n ≤ b.limits.size) (hs : Stretch n id)
    (hnewest : id ≤ newest.toInt → newest.toInt < id + n → b.slotOf? newest ≠ none)
    (acc : Array Wanted) (hx : b.Reaches now newest n id budget x) :
    (askFrom now newest n id budget acc b).2.slots[b.position x]? =
      some (some ((b.unit x).asked
        (indicesOf ((b.dues now newest n id).take budget) x) now)) := by
  induction n generalizing id budget acc b with
  | zero =>
      have hle := hx.le
      have hlt := hx.lt
      omega
  | succ n ih =>
      have hbudget : budget ≠ 0 := by
        have hpos := hx.affordable
        omega
      have hunit := hs.toInt_ofInt
      obtain ⟨acc', hwalk⟩ := b.askFrom_succ now newest n id hbudget acc
      have hplaced := h.askUnit now newest (Int32.ofInt id) budget
      have hsize : n ≤ (b.askUnit now newest (Int32.ofInt id) budget).2.limits.size := by
        rw [limits_askUnit h]
        omega
      -- A unit later in the walk has a position of its own.
      have hother (y : Int32) (hle : id < y.toInt) (hlt : y.toInt < id + (n + 1 : Nat)) :
          b.position y ≠ b.position (Int32.ofInt id) :=
        position_ne_of_stretch h.size_pos (by omega) (by omega)
      rw [hwalk]
      by_cases hfirst : x = Int32.ofInt id
      · subst hfirst
        rw [slots_askFrom_of_not_reached hplaced hsize hs.tail, slots_askUnit h,
          indicesOf_dues_first hs]
        · rintro rfl
          exact hnewest (by omega) (by omega)
        · intro y hy
          have hle := hy.le
          have hlt := hy.lt
          rw [position_askUnit h]
          exact hother y (by omega) (by omega)
      · have hle := hx.le
        have hlt := hx.lt
        have hlater : id < x.toInt := by
          have hne : x.toInt ≠ id := fun hc => hfirst (Int32.toInt_inj.mp (hc.trans hunit.symm))
          omega
        have hslot (y : Int32) (hy : id < y.toInt) (hylt : y.toInt < id + (n + 1 : Nat)) :
            (b.askUnit now newest (Int32.ofInt id) budget).2.slotOf? y = b.slotOf? y :=
          slotOf?_askUnit_of_ne h (hother y hy hylt)
        have hkept := ih hplaced hsize hs.tail ?_ acc' ((reaches_succ h hn hs hlater).mp hx)
        · rw [position_askUnit h, dues_askUnit h hn hs] at hkept
          rw [hkept, unit, hslot x hlater hlt, indicesOf_dues_later hfirst]
          rfl
        · intro hge hend
          rw [hslot newest (by omega) (by omega)]
          exact hnewest (by omega) (by omega)

theorem requested_askFrom (h : b.Placed) (acc : Array Wanted) :
    (askFrom now newest n id budget acc b).2.counts.requested = b.counts.requested := by
  induction n generalizing id budget acc b with
  | zero => rfl
  | succ n ih =>
      by_cases hbudget : budget = 0
      · rw [askFrom, if_pos hbudget]
      obtain ⟨acc', hwalk⟩ := b.askFrom_succ now newest n id hbudget acc
      rw [hwalk, ih (h.askUnit _ _ _ _)]
      rcases askUnit_snd h now newest (Int32.ofInt id) budget with
        ⟨hsame, -⟩ | ⟨s, -, -, k, hput⟩
      · rw [hsame]
      · rw [hput]
        rfl

end AskFrom

/-- A round counts what it asks for. -/
theorem requested_request {a : Assembly} (h : a.Placed) (now : Int) :
    (a.request now).2.counts.requested = a.counts.requested + (a.request now).1.length := by
  unfold request
  cases a.newest with
  | none => rfl
  | some newest =>
      simp only [Array.length_toList]
      rw [requested_askFrom h]

/-! ### A ring in use -/

/-- What a round relies on: the slots say how far their units have come, and the newest unit
has one. -/
structure Ongoing (a : Assembly) (newest : Int32) : Prop where
  sound : a.Sound
  gauged : ∀ s ∈ a, s.Gauged
  newest_eq : a.newest = some newest
  newest_mem : a.slotOf? newest ≠ none
  oldest : a.oldest ≠ none

theorem gauged_perform {a : Assembly} (h : a.Sound) (hgauged : ∀ s ∈ a, s.Gauged) (c : Call) :
    ∀ t ∈ (a.perform c).2, t.Gauged := by
  intro t ht
  cases c with
  | receive p =>
      change t ∈ (a.receive p).2 at ht
      rcases receive_cases h p with hrefused | ⟨s, hs⟩
      · exact hgauged t (hrefused.mem_iff.mp ht)
      · rw [receive_of_takesIn h hs] at ht
        rcases (hs.mem_keepIn h).mp ht with rfl | ⟨hold, -⟩
        · have hbefore : s.Gauged := by
            rcases hs.place with hold | ⟨rfl, -⟩
            · exact hgauged s hold
            · exact Slot.Gauged.blank p.id
          exact hbefore.accept hs.fits
        · exact hgauged t hold
  | take id =>
      rcases perform_take h.toPlaced id with hp | ⟨s, hs, -, -, -, hp⟩
      · rw [hp] at ht
        exact hgauged t ht
      · rw [hp] at ht
        obtain ⟨u, hu, rfl⟩ := (mem_handOn h.toPlaced hs).mp ht
        unfold settle
        split
        · exact (hgauged u hu).taken
        · exact hgauged u hu
  | request now =>
      rcases old_or_blank_request h now ht with ⟨s, hs, hlike⟩ | ⟨-, hblank⟩
      · exact (hgauged s hs).like hlike
      · exact (Slot.Gauged.blank t.id).like hblank

theorem gauged_run {a : Assembly} (h : a.Sound) (hgauged : ∀ s ∈ a, s.Gauged)
    (calls : List Call) : ∀ t ∈ a.run calls, t.Gauged := by
  induction calls generalizing a with
  | nil => exact hgauged
  | cons c rest ih => exact ih (h.perform c) (gauged_perform h hgauged c)

/-- What was accepted was kept. -/
theorem exists_kept_of_accepted {steps : List Step} {id : Int32} (h : accepted steps id ≠ ∅) :
    ∃ p ∈ kept steps, p.id = id := by
  obtain ⟨i, hi⟩ := Finset.nonempty_iff_ne_empty.mpr h
  simp only [accepted, List.mem_toFinset, List.mem_filterMap] at hi
  obtain ⟨st, hst, haccepted⟩ := hi
  unfold Step.accepted? at haccepted
  split at haccepted
  · rename_i p v hcall hanswer
    obtain ⟨⟨hid, hv⟩, -⟩ := Option.ite_none_right_eq_some.mp haccepted
    refine ⟨p, List.mem_filterMap.mpr ⟨st, hst, ?_⟩, hid⟩
    simp only [Step.kept?, hcall, hanswer, if_pos hv]
  · cases haccepted

/-- **A ring that has seen something is in use.** -/
theorem ongoing_run (channel : Channel) (limits : Limits) (calls : List Call) {newest : Int32}
    (hnewest : ((empty channel limits).run calls).newest = some newest) :
    ((empty channel limits).run calls).Ongoing newest := by
  have hempty := sound_empty channel limits
  have hsound := hempty.run calls
  have hextent := extent_run channel limits calls
  have haccepted := hextent.newest_mem newest hnewest
  refine ⟨hsound, ?_, hnewest, ?_, ?_⟩
  · exact gauged_run hempty (fun s hs => absurd hs (not_mem_empty channel limits s)) calls
  · -- The newest unit could have lost its slot to a younger one only.
    obtain ⟨p, hp, hid⟩ := exists_kept_of_accepted haccepted
    obtain ⟨s, hs, -, hle⟩ := (recorded_run channel limits calls).present p hp
    obtain ⟨n, hn, hsn⟩ := hsound.newest s hs
    rw [hnewest, Option.some.injEq] at hn
    have heq : s.id = newest := Int32.le_antisymm (hn ▸ hsn) (hid ▸ hle)
    rw [hsound.slotOf?_eq_some.mpr ⟨hs, heq⟩]
    exact Option.some_ne_none s
  · obtain ⟨m, hm, -⟩ := hextent.oldest_le newest haccepted
    rw [hm]
    exact Option.some_ne_none m

/-- What comes before the end of a list in order has less than that in front of it. -/
theorem countP_lt_of_mem_take {l : List Wanted} {k : Nat} {w : Wanted}
    (hl : l.Pairwise fun v w => v.1 < w.1 ∨ v.1 = w.1 ∧ v.2 < w.2) (hw : w ∈ l.take k) :
    (l.countP fun v => v.1 < w.1) < k := by
  induction l generalizing k with
  | nil => simp at hw
  | cons v rest ih =>
      obtain ⟨hfirst, hrest⟩ := List.pairwise_cons.mp hl
      obtain ⟨k, rfl⟩ : ∃ j, k = j + 1 := Nat.exists_eq_succ_of_ne_zero (by rintro rfl; simp at hw)
      rw [List.take_succ_cons, List.mem_cons] at hw
      rcases hw with rfl | hw
      · have hnone : ((w :: rest).countP fun v => v.1 < w.1) = 0 := by
          rw [List.countP_eq_zero]
          intro v hv hlt
          rw [decide_eq_true_eq] at hlt
          rcases List.mem_cons.mp hv with rfl | hv
          · exact Int32.lt_irrefl hlt
          · rcases hfirst v hv with hgt | ⟨heq, -⟩
            · exact Int32.lt_irrefl (Int32.lt_trans hlt hgt)
            · exact Int32.lt_irrefl (heq ▸ hlt)
        omega
      · have hcount := ih hrest hw
        rw [List.countP_cons]
        split <;> omega

/-- What there is to ask for, in order. -/
def missing (a : Assembly) (now : Int) (newest : Int32) : List Wanted :=
  (a.dues now newest (a.span newest) (a.askStart newest)).map wanted

namespace Ongoing

variable {a : Assembly} {now : Int} {newest : Int32}

theorem id_unit (h : a.Ongoing newest) (id : Int32) : (a.unit id).id = id := by
  unfold unit
  cases hof : a.slotOf? id with
  | none => rfl
  | some s => exact (h.sound.slotOf?_eq_some.mp hof).2

theorem gauged_unit (h : a.Ongoing newest) (id : Int32) : (a.unit id).Gauged := by
  unfold unit
  cases hof : a.slotOf? id with
  | none => exact Slot.Gauged.blank id
  | some s => exact h.gauged s (h.sound.slotOf?_eq_some.mp hof).1

theorem stretch (h : a.Ongoing newest) : Stretch (a.span newest) (a.askStart newest) :=
  stretch_span h.sound.size_pos newest

theorem dueOf_eq (h : a.Ongoing newest) (now : Int) (id : Int32) :
    a.dueOf now newest id = (a.unit id).due a.limits now newest :=
  dueOf_eq_due_unit (fun hid => hid ▸ h.newest_mem) now

theorem lt_of_mem_dues (h : a.Ongoing newest) {w : Int32 × Nat}
    (hw : w ∈ a.dues now newest (a.span newest) (a.askStart newest)) : w.2 < 65536 := by
  obtain ⟨-, -, hdue⟩ := (mem_dues h.stretch).mp hw
  rw [h.dueOf_eq, (h.gauged_unit w.1).mem_due_iff] at hdue
  exact Nat.lt_trans hdue.2.2.2.1 ((h.gauged_unit w.1).reach_lt newest)

theorem awaits_iff_lt (h : a.Ongoing newest) {id : Int32} :
    a.Awaits newest id ↔
      a.askStart newest ≤ id.toInt ∧ id.toInt < a.askStart newest + a.span newest := by
  rw [awaits_iff h.oldest, Int32.le_iff_toInt_le, span]
  omega

/-- What is due is what is missing. -/
theorem mem_dues_iff (h : a.Ongoing newest) {w : Wanted} :
    (w.1, w.2.toNat) ∈ a.dues now newest (a.span newest) (a.askStart newest) ↔
      a.Missing now newest w := by
  rw [mem_dues h.stretch, ← and_assoc, ← h.awaits_iff_lt, h.dueOf_eq,
    (h.gauged_unit w.1).mem_due_iff]
  constructor
  · rintro ⟨hawaits, htaken, hcomplete, hempty, hreach, htries, hrested⟩
    exact ⟨hawaits, htaken, hcomplete, hempty, hreach, htries, hrested⟩
  · rintro ⟨hawaits, htaken, hcomplete, hempty, hreach, htries, hrested⟩
    exact ⟨hawaits, htaken, hcomplete, hempty, hreach, htries, hrested⟩

theorem toNat_ofNat_of_mem_dues (h : a.Ongoing newest) {w : Int32 × Nat}
    (hw : w ∈ a.dues now newest (a.span newest) (a.askStart newest)) :
    (UInt16.ofNat w.2).toNat = w.2 :=
  UInt16.toNat_ofNat_of_lt' (h.lt_of_mem_dues hw)

theorem mem_missing (h : a.Ongoing newest) {w : Wanted} :
    w ∈ a.missing now newest ↔ a.Missing now newest w := by
  rw [missing, List.mem_map, ← h.mem_dues_iff]
  constructor
  · rintro ⟨v, hv, rfl⟩
    rw [wanted, h.toNat_ofNat_of_mem_dues hv]
    exact hv
  · intro hw
    refine ⟨_, hw, ?_⟩
    rw [wanted, UInt16.ofNat_toNat]

theorem pairwise_missing (h : a.Ongoing newest) :
    (a.missing now newest).Pairwise fun v w => v.1 < w.1 ∨ v.1 = w.1 ∧ v.2 < w.2 := by
  rw [missing, List.pairwise_map]
  refine (pairwise_dues h.stretch).imp_of_mem ?_
  rintro v w hv hw (hlt | ⟨heq, hlt⟩)
  · exact Or.inl hlt
  · refine Or.inr ⟨heq, ?_⟩
    rw [UInt16.lt_iff_toNat_lt, wanted, wanted, h.toNat_ofNat_of_mem_dues hv,
      h.toNat_ofNat_of_mem_dues hw]
    exact hlt

theorem request_fst_eq_take (h : a.Ongoing newest) :
    (a.request now).1 = (a.missing now newest).take a.limits.maxPerRound := by
  rw [request_fst h.sound.toPlaced h.newest_eq, asksFor, missing, List.map_take]

/-- What a round asks of a unit. -/
theorem indicesFor_request (h : a.Ongoing newest) (id : Int32) :
    indicesFor (a.request now).1 id = indicesOf (a.asksFor now newest) id := by
  rw [request_fst h.sound.toPlaced h.newest_eq, indicesFor, indicesOf, List.filter_map,
    List.map_map]
  refine List.map_congr_left fun w hw => ?_
  exact h.toNat_ofNat_of_mem_dues (List.mem_of_mem_take (List.mem_of_mem_filter hw))

theorem visits_iff (h : a.Ongoing newest) {id : Int32} :
    a.Visits newest (a.missing now newest) id ↔
      a.Reaches now newest (a.span newest) (a.askStart newest) a.limits.maxPerRound id := by
  have hcount : ((a.missing now newest).countP fun w => w.1 < id) =
      (a.dues now newest (a.span newest) (a.askStart newest)).countP fun w => w.1 < id := by
    rw [missing, List.countP_map]
    rfl
  constructor
  · rintro ⟨hawaits, haffordable⟩
    obtain ⟨hle, hlt⟩ := h.awaits_iff_lt.mp hawaits
    exact ⟨hle, hlt, hcount ▸ haffordable⟩
  · rintro ⟨hle, hlt, haffordable⟩
    exact ⟨h.awaits_iff_lt.mpr ⟨hle, hlt⟩, hcount ▸ haffordable⟩

theorem missing_of_mem_request (h : a.Ongoing newest) {w : Wanted}
    (hw : w ∈ (a.request now).1) : a.Missing now newest w := by
  rw [h.request_fst_eq_take] at hw
  exact h.mem_missing.mp (List.mem_of_mem_take hw)

/-- A unit of which something is asked is visited. -/
theorem visits_of_mem_request (h : a.Ongoing newest) {w : Wanted} (hw : w ∈ (a.request now).1) :
    a.Visits newest (a.missing now newest) w.1 := by
  refine ⟨(h.missing_of_mem_request hw).awaited, ?_⟩
  rw [h.request_fst_eq_take] at hw
  exact countP_lt_of_mem_take h.pairwise_missing hw

theorem slots_request (h : a.Ongoing newest) :
    (a.request now).2.slots = (askFrom now newest (a.span newest) (a.askStart newest)
      a.limits.maxPerRound #[] a).2.slots := by
  unfold request
  rw [h.newest_eq]
  rfl

theorem slots_of_visits (h : a.Ongoing newest) {id : Int32}
    (hid : a.Visits newest (a.missing now newest) id) :
    (a.request now).2.slots[a.position id]? =
      some (some ((a.unit id).asked (indicesFor (a.request now).1 id) now)) := by
  rw [h.slots_request, h.indicesFor_request, asksFor]
  exact slots_askFrom_of_reached h.sound.toPlaced (span_le h.sound.size_pos newest) h.stretch
    (fun _ _ => h.newest_mem) #[] (h.visits_iff.mp hid)

theorem slots_of_not_visits (h : a.Ongoing newest) {i : Nat}
    (hi : ∀ id, a.Visits newest (a.missing now newest) id → a.position id ≠ i) :
    (a.request now).2.slots[i]? = a.slots[i]? := by
  rw [h.slots_request]
  exact slots_askFrom_of_not_reached h.sound.toPlaced (span_le h.sound.size_pos newest) h.stretch
    #[] fun id hid => hi id (h.visits_iff.mpr hid)

/-- What stands at the position of a unit waited for is no younger. -/
theorem id_le_of_awaits (h : a.Ongoing newest) {id : Int32} (hid : a.Awaits newest id) {s : Slot}
    (hs : s ∈ a) (hpos : a.position s.id = a.position id) : s.id ≤ id := by
  by_contra hnot
  have hfar := add_size_le_of_position_eq h.sound.size_pos hpos.symm (Int32.not_le.mp hnot)
  obtain ⟨n, hn, hle⟩ := h.sound.newest s hs
  rw [h.newest_eq, Option.some.injEq] at hn
  rw [← hn, Int32.le_iff_toInt_le] at hle
  have hnear := hid.near
  omega

/-- The rest of the ring is left alone, but for two counts. -/
theorem rest_request (h : a.Ongoing newest) (now : Int) :
    (a.request now).2 =
      { a with
        slots := (a.request now).2.slots
        counts := { a.counts with
          skipped := (a.request now).2.counts.skipped
          requested := a.counts.requested + (a.request now).1.length } } := by
  obtain ⟨b, n, hround, hb⟩ := round_request h.sound h.newest_eq now
  have hrequested := requested_request h.sound.toPlaced now
  rw [hb] at hrequested ⊢
  simp only at hrequested ⊢
  rw [← hrequested, hround.rest]

end Ongoing

/--
**A round asks for what is missing, and for nothing else.**  Of a ring in any state, the
newest unit of which is `newest`: what is missing can be listed in the order of units and
indices, and the round returns the front of that list, as long as its budget.  Of what the
ring holds

* a unit that is visited has its slot, or a blank one, with what was asked noted in it; it
  takes that place from no younger unit;
* every other place of the ring is as it was;
* a unit that lost its slot counts as skipped if it was not taken and no younger one was;
* what is returned is counted, and nothing else changes.
-/
theorem request_asks_for_missing (channel : Channel) (limits : Limits) (calls : List Call)
    {newest : Int32} (hnewest : ((empty channel limits).run calls).newest = some newest)
    (now : Int) :
    let a := (empty channel limits).run calls
    let asked := (a.request now).1
    let after := (a.request now).2
    ∃ missing : List Wanted,
      missing.Pairwise (fun v w => v.1 < w.1 ∨ v.1 = w.1 ∧ v.2 < w.2) ∧
      (∀ w, w ∈ missing ↔ a.Missing now newest w) ∧
      asked = missing.take a.limits.maxPerRound ∧
      (∀ id, a.Visits newest missing id →
        after.slots[a.position id]? =
            some (some ((a.unit id).asked (indicesFor asked id) now)) ∧
          ∀ s ∈ a, a.position s.id = a.position id → s.id ≤ id) ∧
      (∀ i, (∀ id, a.Visits newest missing id → a.position id ≠ i) →
        after.slots[i]? = a.slots[i]?) ∧
      after.counts.skipped = a.counts.skipped + (a.waiting \ after.units).card ∧
      after =
        { a with
          slots := after.slots
          counts := { a.counts with
            skipped := after.counts.skipped
            requested := a.counts.requested + asked.length } } := by
  intro a asked after
  have h : a.Ongoing newest := ongoing_run channel limits calls hnewest
  refine ⟨a.missing now newest, h.pairwise_missing, fun w => h.mem_missing,
    h.request_fst_eq_take, fun id hid => ⟨h.slots_of_visits hid, ?_⟩,
    fun i hi => h.slots_of_not_visits hi, (opening_request h.sound now).skipped,
    h.rest_request now⟩
  exact fun s hs hpos => h.id_le_of_awaits hid.awaited hs hpos

/-- Of three units in a ring of four, the second one was not seen at all and the third one
only from its second fragment on. -/
theorem round_asks_for_three :
    let a := (empty .video { size := 4 }).run
      [.receive { id := 0, count := 2 }, .receive { id := 2, index := 1, count := 3 }]
    (a.request 5).1 = [(0, 1), (1, 0), (2, 0)] ∧
      ∃ missing : List Wanted, (∀ w, w ∈ missing ↔ a.Missing 5 2 w) ∧
        (a.request 5).1 = missing.take 64 := by
  intro a
  refine ⟨by decide +kernel, ?_⟩
  have hnewest : a.newest = some 2 := by decide +kernel
  obtain ⟨missing, -, hmem, htake, -⟩ := request_asks_for_missing .video { size := 4 }
    [.receive { id := 0, count := 2 }, .receive { id := 2, index := 1, count := 3 }] hnewest 5
  exact ⟨missing, hmem, htake⟩

end Assembly

end Framecast
