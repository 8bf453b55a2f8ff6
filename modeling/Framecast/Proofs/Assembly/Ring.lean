/-
The ring of an assembly, seen as a set of slots.

The slots stand in an array, but where a slot stands follows from its unit: at the
unit's position.  `Placed` says so.  Under it an assembly is as good as the set of its
slots, written `s ∈ a`: a look-up finds exactly the slot of that set that belongs to
the unit (or to its position), no two slots of the set share a position, and putting a
slot adds it to the set and removes the one whose position it takes.

Units that share a position are at least a whole ring apart.
-/
import Mathlib.Data.Int.ModEq
import Framecast.Assembly.Receive
import Framecast.Proofs.Assembly.Slot

namespace Framecast

namespace Assembly

instance : Membership Slot Assembly := ⟨fun a s => some s ∈ a.slots⟩

theorem mem_def {a : Assembly} {s : Slot} : s ∈ a ↔ some s ∈ a.slots := Iff.rfl

/-- Every slot stands at the position of its unit. -/
structure Placed (a : Assembly) : Prop where
  size_pos : 0 < a.limits.size
  size_slots : a.slots.size = a.limits.size
  placed : ∀ i s, a.slots[i]? = some (some s) → a.position s.id = i

/-! ### Positions -/

theorem position_lt {a : Assembly} (h : 0 < a.limits.size) (id : Int32) :
    a.position id < a.limits.size := by
  have hlt := Int.emod_lt_of_pos id.toInt (by omega : (0 : Int) < a.limits.size)
  have hnonneg := Int.emod_nonneg id.toInt (by omega : (a.limits.size : Int) ≠ 0)
  unfold position
  omega

/-- **Two units of one position are at least a whole ring apart.** -/
theorem add_size_le_of_position_eq {a : Assembly} (h : 0 < a.limits.size) {x y : Int32}
    (heq : a.position x = a.position y) (hlt : x < y) :
    x.toInt + (a.limits.size : Int) ≤ y.toInt := by
  have hx := Int.emod_nonneg x.toInt (by omega : (a.limits.size : Int) ≠ 0)
  have hy := Int.emod_nonneg y.toInt (by omega : (a.limits.size : Int) ≠ 0)
  have hmod : x.toInt % (a.limits.size : Int) = y.toInt % (a.limits.size : Int) := by
    unfold position at heq
    omega
  have hdvd : (a.limits.size : Int) ∣ y.toInt - x.toInt := Int.ModEq.dvd hmod
  have hpos : 0 < y.toInt - x.toInt := by
    have := Int32.lt_iff_toInt_lt.mp hlt
    omega
  have := Int.le_of_dvd hpos hdvd
  omega

/-! ### Looking slots up -/

namespace Placed

variable {a : Assembly}

theorem getElem?_position (h : a.Placed) {s : Slot} (hs : s ∈ a) :
    a.slots[a.position s.id]? = some (some s) := by
  obtain ⟨i, hi, hval⟩ := Array.getElem_of_mem (mem_def.mp hs)
  have hget : a.slots[i]? = some (some s) := by rw [Array.getElem?_eq_getElem hi, hval]
  rw [h.placed i s hget]
  exact hget

/-- What stands at a place of the ring are the slots whose units have that position. -/
theorem getElem?_eq_some_iff (h : a.Placed) {i : Nat} {s : Slot} :
    a.slots[i]? = some (some s) ↔ s ∈ a ∧ a.position s.id = i := by
  constructor
  · intro hget
    refine ⟨?_, h.placed i s hget⟩
    rw [mem_def]
    exact Array.mem_of_getElem? hget
  · rintro ⟨hs, rfl⟩
    exact h.getElem?_position hs

/-- What is found at the position of a unit is the slot of the ring that belongs
there. -/
theorem slotAt?_eq_some (h : a.Placed) {id : Int32} {s : Slot} :
    a.slotAt? id = some s ↔ s ∈ a ∧ a.position s.id = a.position id := by
  rw [← h.getElem?_eq_some_iff, slotAt?, Option.join_eq_some_iff]

theorem slotAt?_eq_none (h : a.Placed) {id : Int32} :
    a.slotAt? id = none ↔ ∀ s ∈ a, a.position s.id ≠ a.position id := by
  constructor
  · intro hnone s hs hpos
    rw [h.slotAt?_eq_some.mpr ⟨hs, hpos⟩] at hnone
    cases hnone
  · intro hall
    rw [Option.eq_none_iff_forall_ne_some]
    intro s hs
    obtain ⟨hmem, hpos⟩ := h.slotAt?_eq_some.mp hs
    exact hall s hmem hpos

theorem slotOf?_eq_some (h : a.Placed) {id : Int32} {s : Slot} :
    a.slotOf? id = some s ↔ s ∈ a ∧ s.id = id := by
  unfold slotOf?
  rw [Option.filter_eq_some_iff, h.slotAt?_eq_some, decide_eq_true_eq]
  constructor
  · rintro ⟨⟨hs, -⟩, hid⟩
    exact ⟨hs, hid⟩
  · rintro ⟨hs, rfl⟩
    exact ⟨⟨hs, rfl⟩, rfl⟩

theorem slotOf?_eq_none (h : a.Placed) {id : Int32} :
    a.slotOf? id = none ↔ ∀ s ∈ a, s.id ≠ id := by
  constructor
  · intro hnone s hs hid
    rw [h.slotOf?_eq_some.mpr ⟨hs, hid⟩] at hnone
    cases hnone
  · intro hall
    rw [Option.eq_none_iff_forall_ne_some]
    intro s hs
    obtain ⟨hmem, hid⟩ := h.slotOf?_eq_some.mp hs
    exact hall s hmem hid

/-- No two slots share a position. -/
theorem eq_of_position_eq (h : a.Placed) {s t : Slot} (hs : s ∈ a) (ht : t ∈ a)
    (hpos : a.position s.id = a.position t.id) : s = t := by
  have hget := h.getElem?_position hs
  rw [hpos, h.getElem?_position ht] at hget
  simpa using hget.symm

theorem eq_of_id_eq (h : a.Placed) {s t : Slot} (hs : s ∈ a) (ht : t ∈ a)
    (hid : s.id = t.id) : s = t :=
  h.eq_of_position_eq hs ht (by rw [hid])

/-- **A ring is given by the set of its slots.** -/
theorem slots_eq_of_mem_iff {b : Assembly} (ha : a.Placed) (hb : b.Placed)
    (hlimits : a.limits = b.limits) (hmem : ∀ s, s ∈ a ↔ s ∈ b) : a.slots = b.slots := by
  have hsize : a.slots.size = b.slots.size := by
    rw [ha.size_slots, hb.size_slots, hlimits]
  have hposition (id : Int32) : a.position id = b.position id := by
    rw [position, position, hlimits]
  apply Array.ext hsize
  intro i hi hi'
  apply Option.ext
  intro s
  have hget : a.slots[i]? = some (some s) ↔ b.slots[i]? = some (some s) := by
    rw [ha.getElem?_eq_some_iff, hb.getElem?_eq_some_iff, hmem, hposition]
  rw [Array.getElem?_eq_getElem hi, Array.getElem?_eq_getElem hi'] at hget
  simpa using hget

/-! ### Putting slots -/

/-- The slots after putting one: that one, and those with another position. -/
theorem mem_put (h : a.Placed) {s t : Slot} :
    t ∈ a.put s ↔ t = s ∨ (t ∈ a ∧ a.position t.id ≠ a.position s.id) := by
  have hlt : a.position s.id < a.slots.size := by
    rw [h.size_slots]
    exact position_lt h.size_pos s.id
  constructor
  · intro ht
    obtain ⟨i, hi, hval⟩ := Array.getElem_of_mem (mem_def.mp ht)
    rw [put, Array.size_setIfInBounds] at hi
    simp only [put, Array.getElem_setIfInBounds hi] at hval
    split at hval
    · exact Or.inl (by simpa using hval.symm)
    · rename_i hne
      have hmem : t ∈ a := by rw [mem_def, ← hval]; exact Array.getElem_mem hi
      have hplace := h.placed i t (by rw [Array.getElem?_eq_getElem hi, hval])
      exact Or.inr ⟨hmem, by rw [hplace]; exact fun hc => hne hc.symm⟩
  · rintro (rfl | ⟨ht, hne⟩)
    · rw [mem_def, put]
      exact Array.mem_of_getElem? (Array.getElem?_setIfInBounds_self_of_lt hlt)
    · have hget := h.getElem?_position ht
      rw [mem_def, put]
      refine Array.mem_of_getElem? (i := a.position t.id) ?_
      rw [Array.getElem?_setIfInBounds_ne (fun hc => hne hc.symm)]
      exact hget

theorem put (h : a.Placed) (s : Slot) : (a.put s).Placed where
  size_pos := h.size_pos
  size_slots := by
    show (a.slots.setIfInBounds _ _).size = a.limits.size
    rw [Array.size_setIfInBounds]
    exact h.size_slots
  placed := by
    intro i t ht
    show a.position t.id = i
    simp only [Assembly.put, Array.getElem?_setIfInBounds] at ht
    split at ht
    · rename_i hi
      split at ht
      · have hts : t = s := by simpa using ht.symm
        rw [hts, hi]
      · cases ht
    · exact h.placed i t ht

end Placed

theorem placed_empty (channel : Channel) (limits : Limits) : (empty channel limits).Placed where
  size_pos := by
    show 0 < max limits.size 1
    omega
  size_slots := by
    show (Array.replicate (max limits.size 1) none).size = max limits.size 1
    rw [Array.size_replicate]
  placed := by
    intro i s hs
    simp [empty, Array.getElem?_replicate] at hs

theorem not_mem_empty (channel : Channel) (limits : Limits) (s : Slot) :
    ¬ s ∈ empty channel limits := by
  rw [mem_def]
  simp [empty]

end Assembly

end Framecast
