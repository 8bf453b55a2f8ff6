/-
What a round of requests asks for, exactly.

A round walks over units and, within a unit, over cells, with a budget that both walks
share.  `dues` is the same walk without the budget: all fragments that are due, in the
order of units and indices.  The budget does nothing but cut that list off, so what a
round asks for is the front of it.

The walk changes the ring as it goes, by noting requests and by giving slots to units
that have none.  This never reaches a unit still to be visited: the units of a round
are no more than the ring has slots, so no two of them share a position.  That is why
`dues` may be computed from the ring as it was before the round.
-/
import Framecast.Proofs.Assembly.Round

namespace Framecast

namespace Cell

variable {limits : Assembly.Limits} {now : Int} {limit : Nat}

/-- The indices below `limit` of the cells that are due; the first cell has the index
`index`. -/
def dueFrom (limits : Assembly.Limits) (now : Int) (limit : Nat) :
    (index : Nat) → List Cell → List Nat
  | _, [] => []
  | index, c :: rest =>
    if index < limit ∧ c.isDue limits now = true then
      index :: dueFrom limits now limit (index + 1) rest
    else dueFrom limits now limit (index + 1) rest

theorem mem_dueFrom {i index : Nat} {cells : List Cell} :
    i ∈ dueFrom limits now limit index cells ↔
      index ≤ i ∧ i < limit ∧ ∃ c, cells[i - index]? = some c ∧ c.isDue limits now = true := by
  induction cells generalizing index with
  | nil => simp [dueFrom]
  | cons c rest ih =>
      have hrest : i ∈ dueFrom limits now limit (index + 1) rest ↔
          index < i ∧ i < limit ∧
            ∃ d, (c :: rest)[i - index]? = some d ∧ d.isDue limits now = true := by
        rw [ih]
        by_cases hlt : index < i
        · have hsucc : i - index = (i - (index + 1)) + 1 := by omega
          simp [hsucc, Nat.succ_le_of_lt hlt, hlt]
        · have hnot : ¬ index + 1 ≤ i := by omega
          simp only [hnot, hlt, false_and]
      rw [dueFrom]
      by_cases hc : index < limit ∧ c.isDue limits now = true
      · rw [if_pos hc, List.mem_cons, hrest]
        by_cases hi : i = index
        · subst hi
          simp [hc]
        · simp [hi]
          omega
      · rw [if_neg hc, hrest]
        by_cases hi : i = index
        · subst hi
          simp only [Nat.lt_irrefl, false_and, Nat.le_refl, true_and, Nat.sub_self,
            List.getElem?_cons_zero, Option.some.injEq, exists_eq_left', false_iff]
          exact hc
        · simp
          omega

/-- The indices come in order. -/
theorem pairwise_dueFrom (index : Nat) (cells : List Cell) :
    (dueFrom limits now limit index cells).Pairwise (· < ·) := by
  induction cells generalizing index with
  | nil => simp [dueFrom]
  | cons c rest ih =>
      rw [dueFrom]
      split
      · refine List.pairwise_cons.mpr ⟨?_, ih _⟩
        intro i hi
        obtain ⟨hle, -⟩ := mem_dueFrom.mp hi
        omega
      · exact ih _

theorem dueFrom_of_le {index : Nat} (h : limit ≤ index) (cells : List Cell) :
    dueFrom limits now limit index cells = [] := by
  refine List.eq_nil_iff_forall_not_mem.mpr fun i hi => ?_
  obtain ⟨hle, hlt, -⟩ := mem_dueFrom.mp hi
  omega

/-- **The budget cuts off the list of the cells that are due.** -/
theorem askAll_fst (budget index : Nat) (cells : List Cell) :
    (askAll limits now limit budget index cells).1 =
      (dueFrom limits now limit index cells).take budget := by
  induction cells generalizing budget index with
  | nil => simp [askAll, dueFrom]
  | cons c rest ih =>
      rw [askAll]
      by_cases hstop : budget = 0 ∨ limit ≤ index
      · rw [if_pos hstop]
        rcases hstop with hzero | hle
        · simp [hzero]
        · simp [dueFrom_of_le hle]
      · have hlt : index < limit := by omega
        obtain ⟨b, rfl⟩ : ∃ b, budget = b + 1 := ⟨budget - 1, by omega⟩
        rw [if_neg hstop, dueFrom]
        by_cases hdue : c.isDue limits now = true
        · simp [hdue, hlt, ih]
        · simp [hdue, ih]

/-- The cells asked for, and no others, note the request. -/
theorem getElem?_askAll_snd (budget index : Nat) (cells : List Cell) (j : Nat) :
    (askAll limits now limit budget index cells).2[j]? =
      cells[j]?.map fun c =>
        if index + j ∈ (askAll limits now limit budget index cells).1 then c.asked now else c := by
  induction cells generalizing budget index j with
  | nil => simp [askAll]
  | cons c rest ih =>
      rw [askAll]
      by_cases hstop : budget = 0 ∨ limit ≤ index
      · simp [hstop]
      rw [if_neg hstop]
      cases j with
      | zero =>
          have hnot : index ∉ (askAll limits now limit budget (index + 1) rest).1 := by
            intro hmem
            rw [askAll_fst] at hmem
            obtain ⟨hle, -⟩ := mem_dueFrom.mp (List.mem_of_mem_take hmem)
            omega
          by_cases hdue : c.isDue limits now = true
          · simp [hdue]
          · simp [hdue, hnot]
      | succ j =>
          have hshift : index + (j + 1) = index + 1 + j := by omega
          have hne : ¬ index + 1 + j = index := by omega
          rw [hshift]
          by_cases hdue : c.isDue limits now = true
          · simp [hdue, ih, hne]
          · simp [hdue, ih]

end Cell

namespace Slot

/-- The slot after the fragments at some places were asked for. -/
def asked (s : Slot) (indices : List Nat) (now : Int) : Slot :=
  { s with cells := s.cells.mapIdx fun i c => if i ∈ indices then c.asked now else c }

/-- The places of a slot that are due. -/
def due (s : Slot) (limits : Assembly.Limits) (now : Int) (newest : Int32) : List Nat :=
  if s.taken || s.isComplete then [] else
  Cell.dueFrom limits now (s.askLimit newest) 0 s.cells

@[simp] theorem asked_nil (s : Slot) (now : Int) : s.asked [] now = s := by
  have hcells : s.cells.mapIdx (fun _ c => c) = s.cells := by
    refine List.ext_getElem? fun i => ?_
    simp
  simp [asked, hcells]

@[simp] theorem id_asked (s : Slot) (indices : List Nat) (now : Int) :
    (s.asked indices now).id = s.id := rfl

theorem getElem?_asked (s : Slot) (indices : List Nat) (now : Int) (i : Nat) :
    (s.asked indices now).cells[i]? =
      s.cells[i]?.map fun c => if i ∈ indices then c.asked now else c := by
  simp [asked]

theorem ask_eq (s : Slot) (limits : Assembly.Limits) (now : Int) (newest : Int32)
    (budget : Nat) :
    s.ask limits now newest budget =
      ((s.due limits now newest).take budget,
        s.asked ((s.due limits now newest).take budget) now) := by
  unfold ask due
  split
  · simp
  · have hcells : (Cell.askAll limits now (s.askLimit newest) budget 0 s.cells).2 =
        s.cells.mapIdx fun i c =>
          if i ∈ (Cell.dueFrom limits now (s.askLimit newest) 0 s.cells).take budget
          then c.asked now else c := by
      refine List.ext_getElem? fun i => ?_
      rw [Cell.getElem?_askAll_snd, Cell.askAll_fst, Nat.zero_add, List.getElem?_mapIdx]
    simp only [Cell.askAll_fst, hcells, asked]

theorem mem_due {s : Slot} {limits : Assembly.Limits} {now : Int} {newest : Int32} {i : Nat} :
    i ∈ s.due limits now newest ↔
      s.taken = false ∧ s.isComplete = false ∧ i < s.askLimit newest ∧
        ∃ c, s.cells[i]? = some c ∧ c.isDue limits now = true := by
  unfold due
  by_cases hdone : (s.taken || s.isComplete) = true
  · rw [if_pos hdone]
    simp only [Bool.or_eq_true] at hdone
    rcases hdone with ht | hc
    · simp [ht]
    · simp [hc]
  · rw [if_neg hdone, Cell.mem_dueFrom]
    simp only [Bool.or_eq_true, not_or, Bool.not_eq_true] at hdone
    simp [hdone]

theorem pairwise_due (s : Slot) (limits : Assembly.Limits) (now : Int) (newest : Int32) :
    (s.due limits now newest).Pairwise (· < ·) := by
  unfold due
  split
  · exact List.Pairwise.nil
  · exact Cell.pairwise_dueFrom 0 s.cells

end Slot

namespace Assembly

/-! ### One unit -/

/-- The places of a unit that are due.  A unit that has no slot is judged by the slot it
would get. -/
def dueOf (a : Assembly) (now : Int) (newest id : Int32) : List Nat :=
  match a.slotOf? id with
  | some s => s.due a.limits now newest
  | none => if id = newest then [] else Slot.due { id } a.limits now newest

theorem slotOf?_put_of_ne {a : Assembly} {s : Slot} {id : Int32}
    (h : a.position id ≠ a.position s.id) : (a.put s).slotOf? id = a.slotOf? id := by
  have hget : (a.put s).slots[(a.put s).position id]? = a.slots[a.position id]? := by
    show (a.slots.setIfInBounds (a.position s.id) (some s))[a.position id]? = _
    rw [Array.getElem?_setIfInBounds_ne fun hc => h hc.symm]
  unfold slotOf? slotAt?
  rw [hget]

section AskUnit

variable {a : Assembly} {now : Int} {newest id : Int32} {budget : Nat}

theorem askUnit_fst : (a.askUnit now newest id budget).1 = (a.dueOf now newest id).take budget := by
  unfold askUnit dueOf
  cases a.slotOf? id with
  | some s => simp [Slot.ask_eq]
  | none =>
      by_cases hid : id = newest
      · simp [hid]
      · simp [hid, Slot.ask_eq]

/-- What asking for a unit does to the ring: nothing, or it puts one slot, of that unit,
that notes what was asked for. -/
theorem askUnit_snd (h : a.Placed) (now : Int) (newest id : Int32) (budget : Nat) :
    ((a.askUnit now newest id budget).2 = a ∧ (a.dueOf now newest id).take budget = []) ∨
      ∃ s, (s ∈ a ∨ a.slotOf? id = none ∧ s = { id }) ∧ s.id = id ∧
        ∃ n, (a.askUnit now newest id budget).2 =
          (a.countSkipped n).put (s.asked ((a.dueOf now newest id).take budget) now) := by
  unfold askUnit dueOf
  cases hof : a.slotOf? id with
  | some s =>
      obtain ⟨hs, hid⟩ := h.slotOf?_eq_some.mp hof
      simp only [Slot.ask_eq]
      by_cases hnone : ((s.due a.limits now newest).take budget).isEmpty = true
      · exact Or.inl ⟨by rw [if_pos hnone], by simpa using hnone⟩
      · refine Or.inr ⟨s, Or.inl hs, hid, 0, ?_⟩
        rw [if_neg hnone]
        rfl
  | none =>
      by_cases hid : id = newest
      · exact Or.inl (by simp [hid])
      · refine Or.inr ⟨{ id }, Or.inr ⟨rfl, rfl⟩, rfl,
          if (a.slotAt? id).any a.expects then 1 else 0, ?_⟩
        simp only [if_neg hid, Slot.ask_eq]
        rw [vacate_eq]

theorem Placed.askUnit (h : a.Placed) (now : Int) (newest id : Int32) (budget : Nat) :
    (a.askUnit now newest id budget).2.Placed := by
  rcases askUnit_snd h now newest id budget with
    ⟨hsame, -⟩ | ⟨s, -, -, n, hput⟩
  · rw [hsame]
    exact h
  · rw [hput]
    exact (h.countSkipped n).put _

theorem limits_askUnit (h : a.Placed) : (a.askUnit now newest id budget).2.limits = a.limits := by
  rcases askUnit_snd h now newest id budget with
    ⟨hsame, -⟩ | ⟨s, -, -, n, hput⟩
  · rw [hsame]
  · rw [hput]
    rfl

/-- Units at other positions keep their slots. -/
theorem slotOf?_askUnit_of_ne (h : a.Placed) {x : Int32} (hne : a.position x ≠ a.position id) :
    (a.askUnit now newest id budget).2.slotOf? x = a.slotOf? x := by
  rcases askUnit_snd h now newest id budget with
    ⟨hsame, -⟩ | ⟨s, -, hid, n, hput⟩
  · rw [hsame]
  · rw [hput]
    refine slotOf?_put_of_ne ?_
    rw [Slot.id_asked, hid]
    exact hne

/-- Every slot afterwards is one from before, or a blank one of the unit, and notes what
was asked of the unit. -/
theorem exists_of_mem_askUnit (h : a.Placed) {t : Slot}
    (ht : t ∈ (a.askUnit now newest id budget).2) :
    ∃ s, (s ∈ a ∨ t.id = id ∧ a.slotOf? t.id = none ∧ s = { id := t.id }) ∧
      t = s.asked (if t.id = id then (a.dueOf now newest id).take budget else []) now := by
  rcases askUnit_snd h now newest id budget with
    ⟨hsame, hnone⟩ | ⟨s, hs, hid, n, hput⟩
  · rw [hsame] at ht
    exact ⟨t, Or.inl ht, by simp [hnone]⟩
  · rw [hput] at ht
    rcases (h.countSkipped n).mem_put.mp ht with rfl | ⟨hold, hpos⟩
    · refine ⟨s, ?_, by simp [hid]⟩
      rw [Slot.id_asked, hid]
      rcases hs with hold | hblank
      · exact Or.inl hold
      · exact Or.inr ⟨rfl, hblank⟩
    · have hne : t.id ≠ id := fun hc => hpos (by rw [Slot.id_asked, hid, hc])
      exact ⟨t, Or.inl hold, by simp [hne]⟩

end AskUnit

/-! ### Units in a row -/

/-- The fragments of `n` units from `id` on that are due, each with its unit. -/
def dues (a : Assembly) (now : Int) (newest : Int32) : (n : Nat) → (id : Int) →
    List (Int32 × Nat)
  | 0, _ => []
  | n + 1, id =>
    (a.dueOf now newest (Int32.ofInt id)).map (Prod.mk (Int32.ofInt id)) ++
      dues a now newest n (id + 1)

/-- The indices that a list names for a unit. -/
def indicesOf (list : List (Int32 × Nat)) (id : Int32) : List Nat :=
  (list.filter fun w => w.1 = id).map Prod.snd

/-- A fragment as it is asked for on the wire. -/
def wanted (w : Int32 × Nat) : Wanted :=
  (w.1, UInt16.ofNat w.2)

/-- Units from `id` on, `n` of them, that are numbered without wrapping round. -/
structure Stretch (n : Nat) (id : Int) : Prop where
  le : Int32.minValue.toInt ≤ id
  lt : id + (n : Int) ≤ 2147483648

namespace Stretch

variable {n : Nat} {id : Int}

theorem toInt_ofInt (h : Stretch (n + 1) id) : (Int32.ofInt id).toInt = id := by
  have hle := h.le
  have hlt := h.lt
  have hleast : Int32.minValue.toInt = -2147483648 := by decide
  exact Int32.toInt_ofInt_of_le (by omega) (by omega)

theorem tail (h : Stretch (n + 1) id) : Stretch n (id + 1) := by
  have hle := h.le
  have hlt := h.lt
  exact ⟨by omega, by omega⟩

end Stretch

theorem mem_indicesOf {list : List (Int32 × Nat)} {id : Int32} {i : Nat} :
    i ∈ indicesOf list id ↔ (id, i) ∈ list := by
  simp [indicesOf]

theorem indicesOf_append (l m : List (Int32 × Nat)) (id : Int32) :
    indicesOf (l ++ m) id = indicesOf l id ++ indicesOf m id := by
  simp [indicesOf]

theorem indicesOf_map_self (id : Int32) (indices : List Nat) :
    indicesOf (indices.map (Prod.mk id)) id = indices := by
  simp [indicesOf, List.filter_map, Function.comp_def]

theorem indicesOf_map_of_ne {id x : Int32} (h : x ≠ id) (indices : List Nat) :
    indicesOf (indices.map (Prod.mk id)) x = [] := by
  have hne : ¬ id = x := fun hc => h hc.symm
  simp [indicesOf, List.filter_map, Function.comp_def, hne]

section Dues

variable {a b : Assembly} {now : Int} {newest : Int32} {n : Nat} {id : Int}

theorem mem_dues (h : Stretch n id) {w : Int32 × Nat} :
    w ∈ a.dues now newest n id ↔
      id ≤ w.1.toInt ∧ w.1.toInt < id + n ∧ w.2 ∈ a.dueOf now newest w.1 := by
  induction n generalizing id with
  | zero =>
      simp only [dues, List.not_mem_nil, false_iff]
      omega
  | succ n ih =>
      have hunit := h.toInt_ofInt
      rw [dues, List.mem_append, ih h.tail, List.mem_map]
      constructor
      · rintro (⟨i, hi, rfl⟩ | ⟨hle, hlt, hdue⟩)
        · exact ⟨by simp [hunit], by simp [hunit], hi⟩
        · exact ⟨by omega, by omega, hdue⟩
      · rintro ⟨hle, hlt, hdue⟩
        by_cases heq : w.1.toInt = id
        · have hw : w.1 = Int32.ofInt id := Int32.toInt_inj.mp (heq.trans hunit.symm)
          refine Or.inl ⟨w.2, ?_, ?_⟩
          · rw [← hw]
            exact hdue
          · rw [← hw]
        · exact Or.inr ⟨by omega, by omega, hdue⟩

/-- What is due comes in the order of units and, within a unit, of indices. -/
theorem pairwise_dues (h : Stretch n id) :
    (a.dues now newest n id).Pairwise fun v w => v.1 < w.1 ∨ v.1 = w.1 ∧ v.2 < w.2 := by
  induction n generalizing id with
  | zero => simp [dues]
  | succ n ih =>
      have hunit := h.toInt_ofInt
      rw [dues, List.pairwise_append]
      refine ⟨?_, ih h.tail, ?_⟩
      · rw [List.pairwise_map]
        have hdue : (a.dueOf now newest (Int32.ofInt id)).Pairwise (· < ·) := by
          unfold dueOf
          split
          · exact Slot.pairwise_due _ _ _ _
          · split
            · exact List.Pairwise.nil
            · exact Slot.pairwise_due _ _ _ _
        exact hdue.imp fun hlt => Or.inr ⟨rfl, hlt⟩
      · intro v hv w hw
        obtain ⟨i, -, rfl⟩ := List.mem_map.mp hv
        obtain ⟨hle, -, -⟩ := (mem_dues h.tail).mp hw
        refine Or.inl (Int32.lt_iff_toInt_lt.mpr ?_)
        rw [hunit]
        omega

theorem nodup_dues (h : Stretch n id) : (a.dues now newest n id).Nodup := by
  refine (pairwise_dues h).imp ?_
  rintro v w (hlt | ⟨-, hlt⟩) rfl
  · exact Int32.lt_irrefl hlt
  · exact Nat.lt_irrefl _ hlt

/-- A walk asks nothing of the units before it. -/
theorem indicesOf_dues_of_lt (hs : Stretch n id) {x : Int32} (hx : x.toInt < id) (budget : Nat) :
    indicesOf ((a.dues now newest n id).take budget) x = [] := by
  refine List.eq_nil_iff_forall_not_mem.mpr fun i hi => ?_
  obtain ⟨hle, -, -⟩ := (mem_dues hs).mp (List.mem_of_mem_take (mem_indicesOf.mp hi))
  change id ≤ x.toInt at hle
  omega

/-- What a walk asks of its first unit. -/
theorem indicesOf_dues_first (hs : Stretch (n + 1) id) (budget : Nat) :
    indicesOf ((a.dues now newest (n + 1) id).take budget) (Int32.ofInt id) =
      (a.dueOf now newest (Int32.ofInt id)).take budget := by
  have hunit := hs.toInt_ofInt
  rw [dues, List.take_append, List.length_map, ← List.map_take, indicesOf_append,
    indicesOf_map_self, indicesOf_dues_of_lt hs.tail (by omega), List.append_nil]

/-- What it asks of a later one. -/
theorem indicesOf_dues_later (hx : x ≠ Int32.ofInt id) (budget : Nat) :
    indicesOf ((a.dues now newest (n + 1) id).take budget) x =
      indicesOf ((a.dues now newest n (id + 1)).take
        (budget - (a.dueOf now newest (Int32.ofInt id)).length)) x := by
  rw [dues, List.take_append, List.length_map, ← List.map_take, indicesOf_append,
    indicesOf_map_of_ne hx, List.nil_append]

/-- What is due depends on the slots of the units only. -/
theorem dues_congr (h : Stretch n id) (hlimits : b.limits = a.limits)
    (hslots : ∀ x : Int32, id ≤ x.toInt → x.toInt < id + n → b.slotOf? x = a.slotOf? x) :
    b.dues now newest n id = a.dues now newest n id := by
  induction n generalizing id with
  | zero => rfl
  | succ n ih =>
      have hunit := h.toInt_ofInt
      have hfirst := hslots (Int32.ofInt id) (by omega) (by omega)
      have hdue : b.dueOf now newest (Int32.ofInt id) = a.dueOf now newest (Int32.ofInt id) := by
        unfold dueOf
        rw [hfirst, hlimits]
      rw [dues, dues, hdue, ih h.tail fun x hle hlt => hslots x (by omega) (by omega)]

end Dues

/-- Two units of a stretch no longer than the ring have positions of their own. -/
theorem position_ne_of_stretch {a : Assembly} (h : 0 < a.limits.size) {x y : Int32}
    (hlt : x.toInt < y.toInt) (hnear : y.toInt < x.toInt + (a.limits.size : Int)) :
    a.position y ≠ a.position x := by
  intro heq
  have hfar := add_size_le_of_position_eq h heq.symm (Int32.lt_iff_toInt_lt.mpr hlt)
  omega

section AskFrom

variable {now : Int} {newest : Int32}

/-- The units still to be visited do not notice that one is asked for. -/
theorem dues_askUnit {b : Assembly} {n : Nat} {id : Int} (h : b.Placed)
    (hn : n + 1 ≤ b.limits.size) (hs : Stretch (n + 1) id) (budget : Nat) :
    (b.askUnit now newest (Int32.ofInt id) budget).2.dues now newest n (id + 1) =
      b.dues now newest n (id + 1) := by
  refine dues_congr hs.tail (limits_askUnit h) fun x hle hlt => ?_
  refine slotOf?_askUnit_of_ne h (position_ne_of_stretch h.size_pos ?_ ?_)
  · rw [hs.toInt_ofInt]
    omega
  · rw [hs.toInt_ofInt]
    omega

/-- **What is asked for is the front of what is due.** -/
theorem askFrom_fst {n : Nat} {id : Int} {budget : Nat} {acc : Array Wanted} {b : Assembly}
    (h : b.Placed) (hn : n ≤ b.limits.size) (hs : Stretch n id) :
    (askFrom now newest n id budget acc b).1.toList =
      acc.toList ++ ((b.dues now newest n id).take budget).map wanted := by
  induction n generalizing id budget acc b with
  | zero => simp [askFrom, dues]
  | succ n ih =>
      rw [askFrom]
      by_cases hzero : budget = 0
      · simp [hzero]
      · have hnext := h.askUnit now newest (Int32.ofInt id) budget
        have hsize : n ≤ (b.askUnit now newest (Int32.ofInt id) budget).2.limits.size := by
          rw [limits_askUnit h]
          omega
        have hleft : budget - ((b.dueOf now newest (Int32.ofInt id)).take budget).length =
            budget - (b.dueOf now newest (Int32.ofInt id)).length := by
          rw [List.length_take]
          omega
        rw [if_neg hzero]
        simp only [ih hnext hsize hs.tail, dues_askUnit h hn hs, askUnit_fst, hleft]
        rw [dues, List.take_append, List.length_map, List.map_append, ← List.map_take,
          List.map_map]
        simp [wanted, Function.comp_def]

/-- **What becomes of the slots.**  Every slot afterwards is one from before, or a blank
one of a unit of the stretch that had none, and notes what was asked of its unit. -/
theorem exists_of_mem_askFrom {n : Nat} {id : Int} {budget : Nat} {acc : Array Wanted}
    {b : Assembly} (h : b.Placed) (hn : n ≤ b.limits.size) (hs : Stretch n id) {t : Slot}
    (ht : t ∈ (askFrom now newest n id budget acc b).2) :
    ∃ s, (s ∈ b ∨ b.slotOf? t.id = none ∧ s = { id := t.id } ∧
        id ≤ t.id.toInt ∧ t.id.toInt < id + n) ∧
      t = s.asked (indicesOf ((b.dues now newest n id).take budget) t.id) now := by
  induction n generalizing id budget acc b with
  | zero => exact ⟨t, Or.inl ht, by simp [dues, indicesOf]⟩
  | succ n ih =>
      rw [askFrom] at ht
      by_cases hzero : budget = 0
      · rw [if_pos hzero] at ht
        exact ⟨t, Or.inl ht, by simp [hzero, indicesOf]⟩
      rw [if_neg hzero] at ht
      have hunit := hs.toInt_ofInt
      have hsize : n ≤ (b.askUnit now newest (Int32.ofInt id) budget).2.limits.size := by
        rw [limits_askUnit h]
        omega
      obtain ⟨u, hu, htu⟩ := ih (h.askUnit _ _ _ _) hsize hs.tail ht
      have hlength : budget - (b.askUnit now newest (Int32.ofInt id) budget).1.length =
          budget - (b.dueOf now newest (Int32.ofInt id)).length := by
        rw [askUnit_fst, List.length_take]
        omega
      change t = u.asked (indicesOf ((_ : List _).take
        (budget - (b.askUnit now newest (Int32.ofInt id) budget).1.length)) t.id) now at htu
      rw [hlength, dues_askUnit h hn hs] at htu
      by_cases hfirst : t.id = Int32.ofInt id
      · rw [hfirst, indicesOf_dues_of_lt hs.tail (by omega), Slot.asked_nil] at htu
        subst htu
        have hmem : t ∈ (b.askUnit now newest (Int32.ofInt id) budget).2 := by
          rcases hu with hu | ⟨-, -, hle, -⟩
          · exact hu
          · rw [hfirst] at hle
            omega
        obtain ⟨s, hs', hts⟩ := exists_of_mem_askUnit h hmem
        rw [if_pos hfirst] at hts
        refine ⟨s, ?_, ?_⟩
        · rcases hs' with hold | ⟨-, hnone, hblank⟩
          · exact Or.inl hold
          · exact Or.inr ⟨hnone, hblank, by rw [hfirst]; omega, by rw [hfirst]; omega⟩
        · rw [hfirst, indicesOf_dues_first hs]
          exact hts
      · rw [indicesOf_dues_later hfirst]
        have hid : u.id = t.id := by rw [htu, Slot.id_asked]
        rcases hu with hmem | ⟨hnone, hblank, hle, hlt⟩
        · obtain ⟨s, hs', hts⟩ := exists_of_mem_askUnit h hmem
          rw [hid, if_neg hfirst, Slot.asked_nil] at hts
          subst hts
          rcases hs' with hold | ⟨hcontra, -⟩
          · exact ⟨u, Or.inl hold, htu⟩
          · exact absurd (hid ▸ hcontra) hfirst
        · refine ⟨u, Or.inr ⟨?_, hblank, by omega, by omega⟩, htu⟩
          rw [← hnone]
          refine (slotOf?_askUnit_of_ne h (position_ne_of_stretch h.size_pos ?_ ?_)).symm
          · omega
          · omega

end AskFrom

/-! ### A whole round -/

section Request

variable {a : Assembly} {now : Int} {newest : Int32}

/-- How many units a round looks at. -/
def span (a : Assembly) (newest : Int32) : Nat :=
  (newest.toInt - a.askStart newest + 1).toNat

/-- The fragments a round asks for: what is due of its units, as far as the budget of the
round goes. -/
def asksFor (a : Assembly) (now : Int) (newest : Int32) : List (Int32 × Nat) :=
  (a.dues now newest (a.span newest) (a.askStart newest)).take a.limits.maxPerRound

theorem span_le (h : 0 < a.limits.size) (newest : Int32) : a.span newest ≤ a.limits.size := by
  have hwindow := newest_lt_askStart_add_size h newest
  unfold span
  omega

theorem stretch_span (h : 0 < a.limits.size) (newest : Int32) :
    Stretch (a.span newest) (a.askStart newest) := by
  have hmax := newest.toInt_lt
  have hstart : a.askStart newest ≤ 2147483648 := by
    unfold askStart
    cases a.lastTaken with
    | none =>
        cases a.oldest with
        | none =>
            show newest.toInt ≤ _
            omega
        | some m =>
            have hm := m.toInt_lt
            show max m.toInt _ ≤ _
            omega
    | some t =>
        have ht := t.toInt_lt
        show max (t.toInt + 1) _ ≤ _
        omega
  refine ⟨minValue_le_askStart a newest, ?_⟩
  unfold span
  omega

/-- **What a round returns.** -/
theorem request_fst (h : a.Placed) (hnewest : a.newest = some newest) :
    (a.request now).1 = (a.asksFor now newest).map wanted := by
  unfold request
  rw [hnewest]
  show (askFrom now newest (a.span newest) (a.askStart newest) _ #[] a).1.toList = _
  rw [askFrom_fst h (span_le h.size_pos newest) (stretch_span h.size_pos newest)]
  rfl

/-- **What a round leaves.** -/
theorem exists_of_mem_request (h : a.Placed) (hnewest : a.newest = some newest) {t : Slot}
    (ht : t ∈ (a.request now).2) :
    ∃ s, (s ∈ a ∨ a.slotOf? t.id = none ∧ s = { id := t.id } ∧
        a.askStart newest ≤ t.id.toInt ∧ t.id.toInt < a.askStart newest + a.span newest) ∧
      t = s.asked (indicesOf (a.asksFor now newest) t.id) now := by
  unfold request at ht
  rw [hnewest] at ht
  exact exists_of_mem_askFrom h (span_le h.size_pos newest) (stretch_span h.size_pos newest) ht

theorem mem_asksFor (h : a.Placed) {w : Int32 × Nat} (hw : w ∈ a.asksFor now newest) :
    a.askStart newest ≤ w.1.toInt ∧ w.1 ≤ newest ∧ w.2 ∈ a.dueOf now newest w.1 := by
  obtain ⟨hle, hlt, hdue⟩ := (mem_dues (stretch_span h.size_pos newest)).mp (List.mem_of_mem_take hw)
  refine ⟨hle, Int32.le_iff_toInt_le.mpr ?_, hdue⟩
  unfold span at hlt
  omega

/-- A round that asks for nothing has nothing to ask for, if it may ask at all. -/
theorem dueOf_of_asksFor_nil (h : a.Placed) (hround : 0 < a.limits.maxPerRound)
    (hasks : a.asksFor now newest = []) {id : Int32} (hstart : a.askStart newest ≤ id.toInt)
    (hle : id ≤ newest) : a.dueOf now newest id = [] := by
  have hnone : a.dues now newest (a.span newest) (a.askStart newest) = [] := by
    unfold asksFor at hasks
    rcases List.take_eq_nil_iff.mp hasks with hzero | hnil
    · omega
    · exact hnil
  refine List.eq_nil_iff_forall_not_mem.mpr fun i hi => ?_
  have hmem : (id, i) ∈ a.dues now newest (a.span newest) (a.askStart newest) := by
    refine (mem_dues (stretch_span h.size_pos newest)).mpr ⟨hstart, ?_, hi⟩
    have := Int32.le_iff_toInt_le.mp hle
    show id.toInt < _
    unfold span
    omega
  rw [hnone] at hmem
  exact absurd hmem (List.not_mem_nil)

theorem nodup_asksFor (h : a.Placed) : (a.asksFor now newest).Nodup :=
  (nodup_dues (stretch_span h.size_pos newest)).sublist (List.take_sublist _ _)

end Request

end Assembly

end Framecast
