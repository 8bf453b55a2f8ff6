/-
One unit while its fragments come in, seen as a set of filled places.

A slot keeps a list of cells and two counters.  What matters of it is which places
are filled and with what: `payload?` and `filled`.  `Slot.Sound` ties the cells and
the counters to these: there is one cell for each fragment (a single one while their
number is unknown) and `received` counts the filled places.  So a slot is complete
exactly if every place is filled, and what it then contains is the payloads in the
order of their places.

A fragment enters a slot by `accept`, which sizes the slot first if it has to.
Requests change nothing that matters here: `Slot.Like` says that a slot is another
one but for them.
-/
import Mathlib.Data.Finset.Card
import Mathlib.Data.Finset.Range
import Framecast.Assembly.Request
import Framecast.Assembly.Slot

namespace Framecast

namespace Slot

/-- What is kept at a place. -/
def payload? (s : Slot) (i : Nat) : Option Bytes :=
  s.cells[i]?.bind Cell.payload

/-- The places that are filled. -/
def filled (s : Slot) : Finset Nat :=
  (Finset.range s.cells.length).filter fun i => s.holds i

/-- Cells and counters say the same. -/
structure Sound (s : Slot) : Prop where
  /-- One cell for each fragment, or a single one while their number is unknown. -/
  length_cells : s.cells.length = max s.count 1
  /-- `received` counts the filled places. -/
  received_eq : s.received = s.filled.card
  /-- Nothing is kept before the number of fragments is known. -/
  unsized : s.count = 0 → s.received = 0

theorem holds_eq (s : Slot) (i : Nat) : s.holds i = (s.payload? i).isSome := rfl

theorem mem_filled {s : Slot} {i : Nat} : i ∈ s.filled ↔ s.holds i = true := by
  simp only [filled, Finset.mem_filter, Finset.mem_range, and_iff_right_iff_imp]
  intro h
  by_contra hlt
  rw [holds, List.getElem?_eq_none (Nat.not_lt.mp hlt)] at h
  simp at h

theorem mem_filled_iff_payload? {s : Slot} {i : Nat} :
    i ∈ s.filled ↔ ∃ b, s.payload? i = some b := by
  rw [mem_filled, holds_eq, Option.isSome_iff_exists]

theorem lt_length_of_mem_filled {s : Slot} {i : Nat} (h : i ∈ s.filled) :
    i < s.cells.length :=
  Finset.mem_range.mp (Finset.mem_filter.mp h).1

namespace Sound

variable {s : Slot}

theorem filled_of_unsized (hs : s.Sound) (h : s.count = 0) : s.filled = ∅ := by
  rw [← Finset.card_eq_zero, ← hs.received_eq]
  exact hs.unsized h

theorem payload?_of_unsized (hs : s.Sound) (h : s.count = 0) (i : Nat) :
    s.payload? i = none := by
  have hi : i ∉ s.filled := by rw [hs.filled_of_unsized h]; exact Finset.notMem_empty i
  rw [mem_filled, holds_eq] at hi
  simpa using hi

theorem filled_subset (hs : s.Sound) : s.filled ⊆ Finset.range s.count := by
  intro i hi
  have hlt := lt_length_of_mem_filled hi
  rw [hs.length_cells] at hlt
  rcases Nat.eq_zero_or_pos s.count with hc | hc
  · rw [hs.filled_of_unsized hc] at hi
    exact absurd hi (Finset.notMem_empty i)
  · rw [Finset.mem_range]
    omega

/-- **A slot is complete exactly if it has its size and every place is filled.** -/
theorem isComplete_iff (hs : s.Sound) :
    s.isComplete = true ↔ 0 < s.count ∧ s.filled = Finset.range s.count := by
  simp only [isComplete, Bool.and_eq_true, decide_eq_true_eq, gt_iff_lt]
  refine and_congr_right fun _ => ?_
  rw [hs.received_eq]
  constructor
  · intro h
    exact Finset.eq_of_subset_of_card_le hs.filled_subset (by rw [Finset.card_range, h])
  · intro h
    rw [h, Finset.card_range]

end Sound

theorem sound_blank (id : Int32) : ({ id } : Slot).Sound where
  length_cells := rfl
  received_eq := rfl
  unsized _ := rfl

/-! ### What a complete slot contains -/

/-- If every place is filled, with `f i` at place `i`, the contents are those in
order. -/
theorem contents_eq {s : Slot} {f : Nat → Bytes}
    (h : ∀ i, i < s.cells.length → s.payload? i = some (f i)) :
    s.contents = ((List.range s.cells.length).map f).flatten := by
  have hmap : s.cells.map Cell.payload = (List.range s.cells.length).map (some ∘ f) := by
    refine List.ext_getElem (by simp) fun i hi _ => ?_
    rw [List.length_map] at hi
    have hp := h i hi
    rw [payload?, List.getElem?_eq_getElem hi] at hp
    simpa using hp
  have hfilter : s.cells.filterMap Cell.payload = (List.range s.cells.length).map f := by
    calc s.cells.filterMap Cell.payload
        = (s.cells.map Cell.payload).filterMap (fun b => b) := by
          rw [List.filterMap_map]; rfl
      _ = ((List.range s.cells.length).map (some ∘ f)).filterMap (fun b => b) := by rw [hmap]
      _ = (List.range s.cells.length).map f := by
          rw [List.filterMap_map, ← List.filterMap_eq_map]; rfl
  rw [contents, hfilter]

/-! ### A fragment enters a slot -/

/-- The slot after a fragment was put in, sized first if it has to be. -/
def accept (s : Slot) (p : Packet) : Slot :=
  (if s.count = 0 then s.sized p.count.toNat else s).fill p.index.toNat p.payload

@[simp] theorem id_accept (s : Slot) (p : Packet) : (s.accept p).id = s.id := by
  unfold accept
  split <;> rfl

@[simp] theorem taken_accept (s : Slot) (p : Packet) : (s.accept p).taken = s.taken := by
  unfold accept
  split <;> rfl

theorem length_cells_fill (s : Slot) (i : Nat) (b : Bytes) :
    (s.fill i b).cells.length = s.cells.length :=
  List.length_modify ..

theorem payload?_fill {s : Slot} {i : Nat} (b : Bytes) (hi : i < s.cells.length) (j : Nat) :
    (s.fill i b).payload? j = if j = i then some b else s.payload? j := by
  unfold payload? fill
  rw [List.getElem?_modify]
  by_cases hj : j = i
  · subst hj
    simp [List.getElem?_eq_getElem hi]
  · have hne : i ≠ j := fun hc => hj hc.symm
    simp [hj, hne]

theorem filled_fill {s : Slot} {i : Nat} (b : Bytes) (hi : i < s.cells.length) :
    (s.fill i b).filled = insert i s.filled := by
  ext j
  rw [Finset.mem_insert, mem_filled_iff_payload?, mem_filled_iff_payload?, payload?_fill b hi]
  by_cases hj : j = i
  · simp [hj]
  · simp [hj]

/-- Filling an empty place keeps cells and counters together. -/
theorem Sound.fill {s : Slot} {i : Nat} (hs : s.Sound) (b : Bytes) (hi : i < s.count)
    (hempty : i ∉ s.filled) : (s.fill i b).Sound where
  length_cells := by
    rw [length_cells_fill]
    exact hs.length_cells
  received_eq := by
    have hlt : i < s.cells.length := by rw [hs.length_cells]; omega
    rw [filled_fill b hlt, Finset.card_insert_of_notMem hempty, ← hs.received_eq]
    rfl
  unsized h := by
    have hcount : (s.fill i b).count = s.count := rfl
    omega

theorem payload?_sized {s : Slot} (hs : s.Sound) (h : s.count = 0) (n j : Nat) :
    (s.sized n).payload? j = none := by
  have hzero := hs.payload?_of_unsized h 0
  have hone : s.cells.length = 1 := by rw [hs.length_cells, h]; rfl
  obtain ⟨c, hc⟩ := List.length_eq_one_iff.mp hone
  rw [payload?, hc] at hzero
  rw [payload?, sized, hc]
  cases j with
  | zero => simpa using hzero
  | succ j =>
      simp only [List.take_succ_cons, List.take_nil, List.cons_append, List.nil_append,
        List.getElem?_cons_succ, List.getElem?_replicate]
      split <;> rfl

theorem Sound.sized {s : Slot} (hs : s.Sound) (h : s.count = 0) {n : Nat} (hn : 0 < n) :
    (s.sized n).Sound := by
  have hone : s.cells.length = 1 := by rw [hs.length_cells, h]; rfl
  have hempty : (s.sized n).filled = ∅ := by
    refine Finset.eq_empty_of_forall_notMem fun j hj => ?_
    obtain ⟨b, hb⟩ := mem_filled_iff_payload?.mp hj
    rw [payload?_sized hs h] at hb
    cases hb
  refine ⟨?_, ?_, ?_⟩
  · simp only [Slot.sized, List.length_append, List.length_take, List.length_replicate, hone]
    omega
  · rw [hempty, Finset.card_empty]
    exact hs.unsized h
  · intro hcount
    exact absurd hcount (Nat.ne_of_gt hn)

/-- A slot that has the size `n`, or gets it now, is sound and holds what it held. -/
theorem Sound.sizing {s : Slot} (hs : s.Sound) {n : Nat} (hn : 0 < n)
    (hc : s.count = 0 ∨ s.count = n) :
    (if s.count = 0 then s.sized n else s).Sound ∧
      (if s.count = 0 then s.sized n else s).count = n ∧
      ∀ j, (if s.count = 0 then s.sized n else s).payload? j = s.payload? j := by
  by_cases hzero : s.count = 0
  · simp only [if_pos hzero]
    refine ⟨hs.sized hzero hn, rfl, fun j => ?_⟩
    rw [payload?_sized hs hzero, hs.payload?_of_unsized hzero]
  · rw [if_neg hzero]
    exact ⟨hs, hc.resolve_left hzero, fun _ => rfl⟩

/-- What a slot and a packet have to do with each other for the packet to be put in. -/
structure Fits (s : Slot) (p : Packet) : Prop where
  /-- The slot is of the size the packet says, or of none yet. -/
  count : s.count = 0 ∨ s.count = p.count.toNat
  /-- The index is a place of the unit. -/
  index_lt : p.index.toNat < p.count.toNat
  /-- The place is empty. -/
  empty : p.index.toNat ∉ s.filled

namespace Fits

variable {s : Slot} {p : Packet}

theorem sizing (h : s.Fits p) (hs : s.Sound) :
    (if s.count = 0 then s.sized p.count.toNat else s).Sound ∧
      (if s.count = 0 then s.sized p.count.toNat else s).count = p.count.toNat ∧
      ∀ j, (if s.count = 0 then s.sized p.count.toNat else s).payload? j = s.payload? j :=
  hs.sizing (Nat.zero_lt_of_lt h.index_lt) h.count

theorem count_accept (h : s.Fits p) (hs : s.Sound) : (s.accept p).count = p.count.toNat :=
  (h.sizing hs).2.1

theorem payload?_accept (h : s.Fits p) (hs : s.Sound) (j : Nat) :
    (s.accept p).payload? j =
      if j = p.index.toNat then some p.payload else s.payload? j := by
  obtain ⟨hsound, hcount, hsame⟩ := h.sizing hs
  have hlt := h.index_lt
  rw [accept, payload?_fill p.payload (by rw [hsound.length_cells, hcount]; omega), hsame]

theorem filled_accept (h : s.Fits p) (hs : s.Sound) :
    (s.accept p).filled = insert p.index.toNat s.filled := by
  ext j
  rw [Finset.mem_insert, mem_filled_iff_payload?, mem_filled_iff_payload?,
    h.payload?_accept hs]
  by_cases hj : j = p.index.toNat
  · simp [hj]
  · simp [hj]

theorem sound_accept (h : s.Fits p) (hs : s.Sound) : (s.accept p).Sound := by
  obtain ⟨hsound, hcount, hsame⟩ := h.sizing hs
  refine hsound.fill p.payload (by rw [hcount]; exact h.index_lt) ?_
  rw [mem_filled_iff_payload?, hsame, ← mem_filled_iff_payload?]
  exact h.empty

end Fits

/-! ### Requests leave what was received alone -/

/-- `t` is `s`, but for how often its fragments were asked for. -/
structure Like (s t : Slot) : Prop where
  rest : t = { s with cells := t.cells }
  payloads : t.cells.map Cell.payload = s.cells.map Cell.payload

namespace Like

variable {s t u : Slot}

theorem refl (s : Slot) : s.Like s := ⟨rfl, rfl⟩

theorem trans (h : s.Like t) (h' : t.Like u) : s.Like u := by
  refine ⟨?_, h'.payloads.trans h.payloads⟩
  rw [h'.rest, h.rest]

theorem id_eq (h : s.Like t) : t.id = s.id := by rw [h.rest]

theorem taken_eq (h : s.Like t) : t.taken = s.taken := by rw [h.rest]

theorem count_eq (h : s.Like t) : t.count = s.count := by rw [h.rest]

theorem received_eq (h : s.Like t) : t.received = s.received := by rw [h.rest]

theorem payload?_eq (h : s.Like t) (i : Nat) : t.payload? i = s.payload? i := by
  have hrow (u : Slot) : u.payload? i = (u.cells.map Cell.payload)[i]?.join := by
    rw [payload?, List.getElem?_map]
    cases u.cells[i]? <;> rfl
  rw [hrow, hrow, h.payloads]

theorem length_cells_eq (h : s.Like t) : t.cells.length = s.cells.length := by
  simpa using congrArg List.length h.payloads

theorem filled_eq (h : s.Like t) : t.filled = s.filled := by
  ext i
  rw [mem_filled_iff_payload?, mem_filled_iff_payload?, h.payload?_eq]

theorem sound (h : s.Like t) (hs : s.Sound) : t.Sound where
  length_cells := by rw [h.length_cells_eq, h.count_eq]; exact hs.length_cells
  received_eq := by rw [h.received_eq, h.filled_eq]; exact hs.received_eq
  unsized := by rw [h.count_eq, h.received_eq]; exact hs.unsized

end Like

theorem payloads_askAll (limits : Assembly.Limits) (now : Int) (limit : Nat) :
    ∀ (budget index : Nat) (cells : List Cell),
      (Cell.askAll limits now limit budget index cells).2.map Cell.payload =
        cells.map Cell.payload := by
  intro budget index cells
  induction cells generalizing budget index with
  | nil => simp [Cell.askAll]
  | cons c rest ih =>
      rw [Cell.askAll]
      split
      · rfl
      · split
        · simp [ih, Cell.asked]
        · simp [ih]

/-- Asking for what is missing of a slot leaves everything but the requests. -/
theorem like_ask (s : Slot) (limits : Assembly.Limits) (now : Int) (newest : Int32)
    (budget : Nat) : s.Like (s.ask limits now newest budget).2 := by
  unfold ask
  split
  · exact Like.refl s
  · exact ⟨rfl, payloads_askAll limits now _ budget 0 s.cells⟩

end Slot

end Framecast
