/-
The units an assembly holds, and what it means that units get a slot.

`units` are the units that have a slot and `waiting` those among them that are still
expected.  A unit that gets a slot may push out an older one; if that one was waiting
it counts as skipped.  `Opening` says this of any number of units at once, and without
a word about what the slots contain: taking a fragment in is an opening of at most one
unit, and openings can be put one after another as long as none pushes out what the
ones before it brought in.
-/
import Framecast.Proofs.Assembly.Sound

namespace Framecast

namespace Assembly

/-! ### Units as finite sets -/

/-- The units of the slots that pass a test. -/
def pick (a : Assembly) (test : Slot → Bool) : Finset Int32 :=
  (a.slots.toList.filterMap fun o => (o.filter test).map Slot.id).toFinset

/-- The units that have a slot. -/
def units (a : Assembly) : Finset Int32 :=
  a.pick fun _ => true

/-- The units that have a slot and are still expected. -/
def waiting (a : Assembly) : Finset Int32 :=
  a.pick a.expects

theorem mem_pick {a : Assembly} {test : Slot → Bool} {id : Int32} :
    id ∈ a.pick test ↔ ∃ s ∈ a, test s = true ∧ s.id = id := by
  simp only [pick, List.mem_toFinset, List.mem_filterMap, Option.map_eq_some_iff,
    Option.filter_eq_some_iff, Array.mem_toList_iff]
  constructor
  · rintro ⟨o, ho, s, ⟨rfl, htest⟩, hid⟩
    exact ⟨s, ho, htest, hid⟩
  · rintro ⟨s, hs, htest, hid⟩
    exact ⟨some s, hs, s, ⟨rfl, htest⟩, hid⟩

theorem mem_units {a : Assembly} {id : Int32} : id ∈ a.units ↔ ∃ s ∈ a, s.id = id := by
  simp [units, mem_pick]

theorem mem_waiting {a : Assembly} {id : Int32} :
    id ∈ a.waiting ↔ ∃ s ∈ a, a.expects s = true ∧ s.id = id :=
  mem_pick

theorem waiting_subset_units (a : Assembly) : a.waiting ⊆ a.units := by
  intro id hid
  obtain ⟨s, hs, -, rfl⟩ := mem_waiting.mp hid
  exact mem_units.mpr ⟨s, hs, rfl⟩

theorem expects_iff {a : Assembly} {s : Slot} :
    a.expects s = true ↔ s.taken = false ∧ a.isFinished s.id = false := by
  simp [expects]

/-- **The slots that pass a test are as many as their units.** -/
theorem card_pick {a : Assembly} (h : a.Placed) (test : Slot → Bool) :
    (a.pick test).card = a.slots.countP fun o => o.any test := by
  have hnodup : (a.slots.toList.filterMap fun o => (o.filter test).map Slot.id).Nodup := by
    rw [List.Nodup, List.pairwise_filterMap, List.pairwise_iff_getElem]
    intro i j hi hj hij x hx y hy hxy
    rw [Array.getElem_toList, Option.map_eq_some_iff] at hx hy
    obtain ⟨s, hs, rfl⟩ := hx
    obtain ⟨t, ht, rfl⟩ := hy
    have hsi := h.placed i s (by
      rw [Array.getElem?_eq_getElem (by simpa using hi), (Option.filter_eq_some_iff.mp hs).1])
    have htj := h.placed j t (by
      rw [Array.getElem?_eq_getElem (by simpa using hj), (Option.filter_eq_some_iff.mp ht).1])
    rw [hxy, htj] at hsi
    omega
  rw [pick, List.toFinset_card_of_nodup hnodup, List.length_filterMap_eq_countP,
    ← Array.countP_toList]
  refine List.countP_congr fun o _ => ?_
  cases o with
  | none => simp
  | some s =>
      cases htest : test s <;> simp [Option.filter, htest]

/-! ### Openings -/

/-- `b` is `a` after some units got a slot.  Each of them is younger than the unit whose
slot it takes over and not finished; the units that lost their slots count as skipped
if they were waiting. -/
structure Opening (a b : Assembly) : Prop where
  limits : b.limits = a.limits
  lastTaken : b.lastTaken = a.lastTaken
  completed : b.counts.completed = a.counts.completed
  skipped : b.counts.skipped = a.counts.skipped + (a.waiting \ b.units).card
  old_or_new : ∀ t ∈ b, (∃ s ∈ a, s.id = t.id ∧ s.taken = t.taken) ∨
    (t.taken = false ∧ a.isFinished t.id = false ∧
      ∀ s ∈ a, a.position s.id = a.position t.id → s.id < t.id)
  kept_or_lost : ∀ s ∈ a, ∃ t ∈ b, a.position t.id = a.position s.id ∧
    ((t.id = s.id ∧ t.taken = s.taken) ∨ s.id < t.id)

namespace Opening

variable {a b c : Assembly}

theorem refl (a : Assembly) : Opening a a where
  limits := rfl
  lastTaken := rfl
  completed := rfl
  skipped := by
    rw [Finset.sdiff_eq_empty_iff_subset.mpr a.waiting_subset_units]
    rfl
  old_or_new t ht := Or.inl ⟨t, ht, rfl, rfl⟩
  kept_or_lost s hs := ⟨s, hs, rfl, Or.inl ⟨rfl, rfl⟩⟩

theorem position_eq (h : Opening a b) (id : Int32) : b.position id = a.position id := by
  unfold position
  rw [h.limits]

theorem isFinished_eq (h : Opening a b) (id : Int32) : b.isFinished id = a.isFinished id := by
  unfold isFinished
  rw [h.lastTaken]

theorem expects_eq (h : Opening a b) {s t : Slot} (hid : s.id = t.id)
    (htaken : s.taken = t.taken) : b.expects t = a.expects s := by
  rw [expects, expects, h.isFinished_eq, hid, htaken]

/-- A unit that has a slot before and after has it for the same purpose. -/
theorem taken_eq (h : Opening a b) (ha : a.Placed) {s t : Slot} (hs : s ∈ a) (ht : t ∈ b)
    (hid : s.id = t.id) : t.taken = s.taken := by
  rcases h.old_or_new t ht with ⟨u, hu, huid, hutaken⟩ | ⟨-, -, hyoung⟩
  · have hus : u = s := ha.eq_of_id_eq hu hs (huid.trans hid.symm)
    rw [← hutaken, hus]
  · have hlt := hyoung s hs (by rw [hid])
    rw [hid] at hlt
    exact absurd hlt Int32.lt_irrefl

/-- A unit that has a slot before and after waits in both or in neither. -/
theorem mem_waiting_iff (h : Opening a b) (ha : a.Placed) {id : Int32} (hid : id ∈ a.units)
    (hid' : id ∈ b.units) : id ∈ b.waiting ↔ id ∈ a.waiting := by
  obtain ⟨s, hs, rfl⟩ := mem_units.mp hid
  obtain ⟨t, ht, htid⟩ := mem_units.mp hid'
  have hexp : b.expects t = a.expects s :=
    h.expects_eq htid.symm (h.taken_eq ha hs ht htid.symm).symm
  constructor
  · intro hw
    obtain ⟨u, hu, huexp, huid⟩ := mem_waiting.mp hw
    refine mem_waiting.mpr ⟨s, hs, ?_, rfl⟩
    rcases h.old_or_new u hu with ⟨v, hv, hvid, hvtaken⟩ | ⟨-, -, hyoung⟩
    · have hvs : v = s := ha.eq_of_id_eq hv hs (hvid.trans huid)
      rw [← hvs, ← h.expects_eq hvid hvtaken]
      exact huexp
    · have hlt := hyoung s hs (by rw [huid])
      rw [huid] at hlt
      exact absurd hlt Int32.lt_irrefl
  · intro hw
    obtain ⟨u, hu, huexp, huid⟩ := mem_waiting.mp hw
    have hus : u = s := ha.eq_of_id_eq hu hs huid
    refine mem_waiting.mpr ⟨t, ht, ?_, htid⟩
    rw [hexp, ← hus]
    exact huexp

/-- A unit that lost its slot has lost it to a younger one. -/
theorem id_lt_of_lost (h : Opening a b) {s : Slot} (hs : s ∈ a) (hlost : s.id ∉ b.units) :
    ∃ t ∈ b, a.position t.id = a.position s.id ∧ s.id < t.id := by
  obtain ⟨t, ht, hpos, ⟨hid, -⟩ | hlt⟩ := h.kept_or_lost s hs
  · exact absurd (mem_units.mpr ⟨t, ht, hid⟩) hlost
  · exact ⟨t, ht, hpos, hlt⟩

/-- A unit that has its slot, or lost it to a younger one, still does after an
opening. -/
theorem exists_ge (h : Opening a b) {id : Int32}
    (hid : ∃ s ∈ a, a.position s.id = a.position id ∧ id ≤ s.id) :
    ∃ t ∈ b, b.position t.id = b.position id ∧ id ≤ t.id := by
  obtain ⟨s, hs, hpos, hle⟩ := hid
  obtain ⟨t, ht, htpos, hyoung⟩ := h.kept_or_lost s hs
  refine ⟨t, ht, ?_, ?_⟩
  · rw [h.position_eq, h.position_eq, htpos, hpos]
  · rcases hyoung with ⟨htid, -⟩ | hlt
    · rw [htid]
      exact hle
    · exact Int32.le_trans hle (Int32.le_of_lt hlt)

/-! ### Two openings in a row -/

/-- A unit that lost its slot does not get it back. -/
theorem not_mem_of_lost (h : Opening a b) (h' : Opening b c) (hc : c.Placed) {id : Int32}
    (hid : id ∈ a.units) (hgone : id ∉ b.units) : id ∉ c.units := by
  intro hid'
  obtain ⟨s, hs, rfl⟩ := mem_units.mp hid
  obtain ⟨u, hu, huid⟩ := mem_units.mp hid'
  obtain ⟨t, ht, hpos, hlt⟩ := h.id_lt_of_lost hs hgone
  obtain ⟨v, hv, hvpos, hle⟩ := h'.kept_or_lost t ht
  have hpos' : c.position v.id = c.position u.id := by
    rw [h'.position_eq, h'.position_eq, hvpos, h.position_eq, hpos, h.position_eq, huid]
  have hvu : v = u := hc.eq_of_position_eq hv hu hpos'
  rw [hvu, huid] at hle
  rcases hle with ⟨hid, -⟩ | hlt'
  · rw [hid] at hlt
    exact Int32.lt_irrefl hlt
  · exact Int32.lt_irrefl (Int32.lt_trans hlt hlt')

/-- What waited and lost its slot lost it in one of the two. -/
theorem skipped_trans (h : Opening a b) (h' : Opening b c) (ha : a.Placed) (hc : c.Placed)
    (hlost : ∀ id ∈ b.units, id ∉ c.units → id ∈ a.units) :
    c.counts.skipped = a.counts.skipped + (a.waiting \ c.units).card := by
  have hsplit : a.waiting \ c.units = (a.waiting \ b.units) ∪ (b.waiting \ c.units) := by
    ext id
    simp only [Finset.mem_union, Finset.mem_sdiff]
    constructor
    · rintro ⟨hw, hnot⟩
      by_cases hid : id ∈ b.units
      · have hunit := a.waiting_subset_units hw
        exact Or.inr ⟨(h.mem_waiting_iff ha hunit hid).mpr hw, hnot⟩
      · exact Or.inl ⟨hw, hid⟩
    · rintro (⟨hw, hnot⟩ | ⟨hw, hnot⟩)
      · exact ⟨hw, h.not_mem_of_lost h' hc (a.waiting_subset_units hw) hnot⟩
      · have hid := b.waiting_subset_units hw
        exact ⟨(h.mem_waiting_iff ha (hlost id hid hnot) hid).mp hw, hnot⟩
  have hdisjoint : Disjoint (a.waiting \ b.units) (b.waiting \ c.units) := by
    rw [Finset.disjoint_left]
    intro id hid hid'
    exact (Finset.mem_sdiff.mp hid).2
      (b.waiting_subset_units (Finset.mem_sdiff.mp hid').1)
  rw [hsplit, Finset.card_union_of_disjoint hdisjoint, h'.skipped, h.skipped, Nat.add_assoc]

/-- **Openings one after another are an opening,** if the second pushes out nothing that
the first brought in. -/
theorem trans (h : Opening a b) (h' : Opening b c) (ha : a.Placed) (hc : c.Placed)
    (hlost : ∀ id ∈ b.units, id ∉ c.units → id ∈ a.units) : Opening a c where
  limits := h'.limits.trans h.limits
  lastTaken := h'.lastTaken.trans h.lastTaken
  completed := h'.completed.trans h.completed
  skipped := h.skipped_trans h' ha hc hlost
  old_or_new := by
    intro t ht
    rcases h'.old_or_new t ht with ⟨u, hu, huid, hutaken⟩ | ⟨htaken, hfin, hyoung⟩
    · rcases h.old_or_new u hu with ⟨s, hs, hsid, hstaken⟩ | ⟨htaken, hfin, hyoung⟩
      · exact Or.inl ⟨s, hs, hsid.trans huid, hstaken.trans hutaken⟩
      · rw [huid] at hfin hyoung
        exact Or.inr ⟨hutaken ▸ htaken, hfin, hyoung⟩
    · refine Or.inr ⟨htaken, by rw [← h.isFinished_eq]; exact hfin, ?_⟩
      -- What stands at the position in between is at least as young as what stood there.
      intro s hs hpos
      obtain ⟨u, hu, hupos, hle⟩ := h.exists_ge ⟨s, hs, rfl, Int32.le_refl _⟩
      refine Int32.lt_of_le_of_lt hle (hyoung u hu ?_)
      rw [hupos, h.position_eq, h.position_eq, hpos]
  kept_or_lost := by
    intro s hs
    obtain ⟨t, ht, hpos, hle⟩ := h.kept_or_lost s hs
    obtain ⟨u, hu, hupos, hle'⟩ := h'.kept_or_lost t ht
    rw [h.position_eq, h.position_eq] at hupos
    refine ⟨u, hu, hupos.trans hpos, ?_⟩
    rcases hle with ⟨hid, htaken⟩ | hlt
    · rcases hle' with ⟨hid', htaken'⟩ | hlt'
      · exact Or.inl ⟨hid'.trans hid, htaken'.trans htaken⟩
      · exact Or.inr (hid ▸ hlt')
    · rcases hle' with ⟨hid', -⟩ | hlt'
      · exact Or.inr (by rw [hid']; exact hlt)
      · exact Or.inr (Int32.lt_trans hlt hlt')

end Opening

/-! ### One unit at a time -/

/-- Where `s` may be put: its unit has a slot already, or is younger than the one that
has the slot at its position, and not finished. -/
def HasPlace (a : Assembly) (s : Slot) : Prop :=
  (∃ u ∈ a, u.id = s.id ∧ u.taken = s.taken) ∨
    (s.taken = false ∧ a.isFinished s.id = false ∧
      ∀ u ∈ a, a.position u.id = a.position s.id → u.id < s.id)

section Put

variable {a b : Assembly} {s : Slot}

/-- A slot that takes the place of another one of its unit pushes nothing out. -/
theorem units_subset_of_mem (h : a.Placed)
    (hmem : ∀ t, t ∈ b ↔ t = s ∨ (t ∈ a ∧ a.position t.id ≠ a.position s.id))
    (hs : s.id ∈ a.units) : a.units ⊆ b.units := by
  obtain ⟨v, hv, hid⟩ := mem_units.mp hs
  intro id hin
  obtain ⟨u, hu, rfl⟩ := mem_units.mp hin
  by_cases hpos : a.position u.id = a.position s.id
  · have huv : u = v := h.eq_of_position_eq hu hv (by rw [hpos, hid])
    exact mem_units.mpr ⟨s, (hmem s).mpr (Or.inl rfl), by rw [huv, hid]⟩
  · exact mem_units.mpr ⟨u, (hmem u).mpr (Or.inr ⟨hu, hpos⟩), rfl⟩

/-- A slot of a unit that had none pushes out what stood at its position. -/
theorem lost_iff_position_eq
    (hmem : ∀ t, t ∈ b ↔ t = s ∨ (t ∈ a ∧ a.position t.id ≠ a.position s.id))
    (hs : s.id ∉ a.units) {u : Slot} (hu : u ∈ a) :
    u.id ∉ b.units ↔ a.position u.id = a.position s.id := by
  constructor
  · intro hlost
    by_contra hpos
    exact hlost (mem_units.mpr ⟨u, (hmem u).mpr (Or.inr ⟨hu, hpos⟩), rfl⟩)
  · intro hpos hin
    obtain ⟨t, ht, htid⟩ := mem_units.mp hin
    rcases (hmem t).mp ht with rfl | ⟨-, hne⟩
    · exact hs (mem_units.mpr ⟨u, hu, htid.symm⟩)
    · rw [htid] at hne
      exact hne hpos

/-- **Making room costs as many units as wait and lose their slot.** -/
theorem roomCost_eq_card (h : a.Placed)
    (hmem : ∀ t, t ∈ b ↔ t = s ∨ (t ∈ a ∧ a.position t.id ≠ a.position s.id)) :
    a.roomCost s.id = (a.waiting \ b.units).card := by
  by_cases hs : s.id ∈ a.units
  · obtain ⟨v, hv, hid⟩ := mem_units.mp hs
    have hkept : a.waiting ⊆ b.units := fun id hw =>
      units_subset_of_mem h hmem hs (a.waiting_subset_units hw)
    rw [roomCost, h.slotOf?_eq_some.mpr ⟨hv, hid⟩, Finset.sdiff_eq_empty_iff_subset.mpr hkept]
    rfl
  -- The unit had no slot, so what stands at its position goes, and nothing else.
  have hof : a.slotOf? s.id = none :=
    h.slotOf?_eq_none.mpr fun u hu hid => hs (mem_units.mpr ⟨u, hu, hid⟩)
  rw [roomCost, hof]
  cases hat : a.slotAt? s.id with
  | none =>
      have hkept : a.waiting ⊆ b.units := by
        intro id hw
        obtain ⟨u, hu, rfl⟩ := mem_units.mp (a.waiting_subset_units hw)
        by_contra hlost
        exact h.slotAt?_eq_none.mp hat u hu ((lost_iff_position_eq hmem hs hu).mp hlost)
      rw [Finset.sdiff_eq_empty_iff_subset.mpr hkept]
      rfl
  | some u =>
      obtain ⟨hu, hpos⟩ := h.slotAt?_eq_some.mp hat
      have hset : a.waiting \ b.units = if a.expects u = true then {u.id} else ∅ := by
        ext id
        rw [Finset.mem_sdiff]
        constructor
        · rintro ⟨hw, hlost⟩
          obtain ⟨v, hv, hvexp, rfl⟩ := mem_waiting.mp hw
          have hvpos := (lost_iff_position_eq hmem hs hv).mp hlost
          have hvu : v = u := h.eq_of_position_eq hv hu (by rw [hvpos, hpos])
          rw [hvu] at hvexp ⊢
          rw [if_pos hvexp]
          exact Finset.mem_singleton_self _
        · intro hid
          split at hid
          · rename_i hexp
            rw [Finset.mem_singleton] at hid
            rw [hid]
            exact ⟨mem_waiting.mpr ⟨u, hu, hexp, rfl⟩,
              (lost_iff_position_eq hmem hs hu).mpr hpos⟩
          · exact absurd hid (Finset.notMem_empty id)
      rw [hset]
      simp only [Option.isSome_none, Bool.false_eq_true, if_false, Option.any_some]
      split <;> rfl

/-- **Putting a slot where it has its place is an opening,** if making room is
counted. -/
theorem opening_put (h : a.Placed) (hlimits : b.limits = a.limits)
    (hlast : b.lastTaken = a.lastTaken) (hcompleted : b.counts.completed = a.counts.completed)
    (hskipped : b.counts.skipped = a.counts.skipped + a.roomCost s.id)
    (hmem : ∀ t, t ∈ b ↔ t = s ∨ (t ∈ a ∧ a.position t.id ≠ a.position s.id))
    (hplace : a.HasPlace s) : Opening a b where
  limits := hlimits
  lastTaken := hlast
  completed := hcompleted
  skipped := by rw [hskipped, roomCost_eq_card h hmem]
  old_or_new := by
    intro t ht
    rcases (hmem t).mp ht with rfl | ⟨hta, -⟩
    · exact hplace
    · exact Or.inl ⟨t, hta, rfl, rfl⟩
  kept_or_lost := by
    intro u hu
    by_cases hpos : a.position u.id = a.position s.id
    · refine ⟨s, (hmem s).mpr (Or.inl rfl), hpos.symm, ?_⟩
      rcases hplace with ⟨v, hv, hid, htaken⟩ | ⟨-, -, hyoung⟩
      · have huv : u = v := h.eq_of_position_eq hu hv (by rw [hpos, hid])
        rw [huv]
        exact Or.inl ⟨hid.symm, htaken.symm⟩
      · exact Or.inr (hyoung u hu hpos)
    · exact ⟨u, (hmem u).mpr (Or.inr ⟨hu, hpos⟩), rfl, Or.inl ⟨rfl, rfl⟩⟩

end Put

/-- **Taking a packet in is an opening,** whatever becomes of the packet. -/
theorem opening_receive {a : Assembly} (h : a.Sound) (p : Packet) :
    Opening a (a.receive p).2 := by
  rcases receive_cases h p with hrefused | ⟨s, hs⟩
  · have hsame := Opening.refl a
    rcases hrefused.rest with hr | hr
    · rw [hr]
      exact hsame
    · rw [hr]
      exact ⟨rfl, rfl, rfl, hsame.skipped, hsame.old_or_new, hsame.kept_or_lost⟩
  · rw [receive_of_takesIn h hs]
    have hid : (s.accept p).id = p.id := by rw [Slot.id_accept, hs.id_eq]
    have hroom : a.keepIn p s =
        ((a.countSkipped (a.roomCost p.id)).put (s.accept p)).noteKept p := by
      rw [keepIn, makeRoom_eq]
    refine opening_put (s := s.accept p) h.toPlaced ?_ ?_ ?_ ?_ ?_ ?_
    · rw [hroom]
      rfl
    · rw [hroom]
      rfl
    · rw [hroom]
      unfold noteKept
      cases p.resent <;> rfl
    · rw [hroom, hid]
      unfold noteKept
      cases p.resent <;> rfl
    · intro t
      rw [hid]
      exact hs.mem_keepIn h
    · rcases hs.place with hold | ⟨rfl, hyoung⟩
      · exact Or.inl ⟨s, hold, by rw [Slot.id_accept], by rw [Slot.taken_accept]⟩
      · refine Or.inr ⟨by rw [Slot.taken_accept], ?_, ?_⟩
        · rw [hid]
          exact hs.unfinished
        · rw [hid]
          exact hyoung

end Assembly

end Framecast
