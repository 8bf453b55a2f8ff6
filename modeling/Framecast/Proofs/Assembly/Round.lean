/-
What a round of requests does to an assembly.

A round walks over the units of one window, from `askStart` up to the newest one seen,
and gives a slot to every unit of it that has none.  `Round` compares the assembly
before the round with the one in the middle of it: besides being an opening, every
slot is either an old one, or a blank one of a unit of the window, but for its
requests.

A window is no longer than the ring.  So a unit that loses its slot on the way lies
below the window, and the round never pushes out a unit it has brought in itself.
-/
import Framecast.Proofs.Assembly.Units

namespace Framecast

namespace Assembly

/-- `b` is `a` somewhere in a round that starts at `start`. -/
structure Round (a b : Assembly) (start : Int) (newest : Int32) : Prop
    extends Opening a b where
  /-- Nothing changes but the slots and the count of units given up. -/
  rest : b = { a with slots := b.slots, counts := { a.counts with skipped := b.counts.skipped } }
  placed : b.Placed
  old_or_blank : ∀ t ∈ b, (∃ s ∈ a, s.Like t) ∨
    (t.id ∉ a.units ∧ ({ id := t.id } : Slot).Like t ∧ start ≤ t.id.toInt ∧ t.id ≤ newest)

namespace Round

variable {a b : Assembly} {start : Int} {newest : Int32}

theorem refl (h : a.Placed) (start : Int) (newest : Int32) : Round a a start newest where
  toOpening := Opening.refl a
  rest := rfl
  placed := h
  old_or_blank t ht := Or.inl ⟨t, ht, Slot.Like.refl t⟩

/-- No slot in the middle of a round belongs to a unit newer than the newest one. -/
theorem id_le (h : Round a b start newest) (ha : a.Sound) (hnewest : a.newest = some newest)
    {t : Slot} (ht : t ∈ b) : t.id ≤ newest := by
  rcases h.old_or_blank t ht with ⟨s, hs, hlike⟩ | ⟨-, -, -, hle⟩
  · obtain ⟨n, hn, hle⟩ := ha.newest s hs
    rw [hnewest, Option.some.injEq] at hn
    rw [hlike.id_eq, hn]
    exact hle
  · exact hle

/-- A unit below the window that has a slot had it before the round. -/
theorem mem_units_of_lt (h : Round a b start newest) {t : Slot} (ht : t ∈ b)
    (hlt : t.id.toInt < start) : t.id ∈ a.units := by
  rcases h.old_or_blank t ht with ⟨s, hs, hlike⟩ | ⟨-, -, hge, -⟩
  · exact mem_units.mpr ⟨s, hs, hlike.id_eq.symm⟩
  · omega

/-- What stands at the position of a unit of the window and belongs to another unit
lies below the window. -/
theorem id_lt_of_position_eq (h : Round a b start newest) (ha : a.Sound)
    (hnewest : a.newest = some newest) (hwindow : newest.toInt < start + (a.limits.size : Int))
    {id : Int32} (hstart : start ≤ id.toInt) (hle : id ≤ newest) {u : Slot} (hu : u ∈ b)
    (hpos : b.position u.id = b.position id) (hne : u.id ≠ id) :
    u.id < id ∧ u.id.toInt < start := by
  have hsize : 0 < b.limits.size := h.placed.size_pos
  have hule := Int32.le_iff_toInt_le.mp (h.id_le ha hnewest hu)
  have hidle := Int32.le_iff_toInt_le.mp hle
  rw [← h.limits] at hwindow
  -- A whole ring above the unit would be beyond the newest one.
  rcases Int.lt_trichotomy u.id.toInt id.toInt with hlt | heq | hgt
  · have hlt' := Int32.lt_iff_toInt_lt.mpr hlt
    have hfar := add_size_le_of_position_eq hsize hpos hlt'
    exact ⟨hlt', by omega⟩
  · exact absurd (Int32.toInt_inj.mp heq) hne
  · have hfar := add_size_le_of_position_eq hsize hpos.symm (Int32.lt_iff_toInt_lt.mpr hgt)
    omega

/-- A slot of which only requests changed. -/
theorem replace (h : Round a b start newest) (ha : a.Placed) {s t : Slot} (hs : s ∈ b)
    (hlike : s.Like t) : Round a (b.put t) start newest := by
  have hmem (u : Slot) := h.placed.mem_put (s := t) (t := u)
  have hopen : Opening b (b.put t) := by
    refine opening_put (s := t) h.placed rfl rfl rfl ?_ hmem ?_
    · have hof : b.slotOf? t.id = some s := h.placed.slotOf?_eq_some.mpr ⟨hs, hlike.id_eq.symm⟩
      rw [roomCost, hof]
      rfl
    · exact Or.inl ⟨s, hs, hlike.id_eq.symm, hlike.taken_eq.symm⟩
  have hkept : b.units ⊆ (b.put t).units :=
    units_subset_of_mem h.placed hmem (mem_units.mpr ⟨s, hs, hlike.id_eq.symm⟩)
  refine ⟨h.trans hopen ha (h.placed.put t) ?_, ?_, h.placed.put t, ?_⟩
  · intro id hid hlost
    exact absurd (hkept hid) hlost
  · rw [h.rest]
    rfl
  · intro u hu
    rcases (hmem u).mp hu with rfl | ⟨hub, -⟩
    · rcases h.old_or_blank s hs with ⟨r, hr, hrs⟩ | ⟨hnew, hblank, hge, hle⟩
      · exact Or.inl ⟨r, hr, hrs.trans hlike⟩
      · rw [← hlike.id_eq] at hnew hblank hge hle
        exact Or.inr ⟨hnew, hblank.trans hlike, hge, hle⟩
    · exact h.old_or_blank u hub

/-- A unit of the window that had no slot gets one. -/
theorem openBlank (h : Round a b start newest) (ha : a.Sound)
    (hnewest : a.newest = some newest) (hwindow : newest.toInt < start + (a.limits.size : Int))
    {id : Int32} (hstart : start ≤ id.toInt) (hle : id ≤ newest)
    (hfin : a.isFinished id = false) (hnone : b.slotOf? id = none) {t : Slot}
    (hblank : ({ id } : Slot).Like t) : Round a ((b.vacate id).put t) start newest := by
  have hid : t.id = id := hblank.id_eq
  have hother : ∀ u ∈ b, u.id ≠ id := h.placed.slotOf?_eq_none.mp hnone
  have hroom : b.vacate id = b.countSkipped (b.roomCost t.id) := by
    rw [← makeRoom_eq, makeRoom, hid, hnone]
    rfl
  have hplaced : (b.countSkipped (b.roomCost t.id)).Placed := h.placed.countSkipped _
  rw [hroom]
  have hmem (u : Slot) : u ∈ (b.countSkipped (b.roomCost t.id)).put t ↔
      u = t ∨ (u ∈ b ∧ b.position u.id ≠ b.position t.id) :=
    hplaced.mem_put (s := t) (t := u)
  have hbelow : ∀ u ∈ b, b.position u.id = b.position t.id →
      u.id < t.id ∧ u.id.toInt < start := by
    intro u hu hpos
    rw [hid] at hpos ⊢
    exact h.id_lt_of_position_eq ha hnewest hwindow hstart hle hu hpos (hother u hu)
  have hopen : Opening b ((b.countSkipped (b.roomCost t.id)).put t) := by
    refine opening_put (s := t) h.placed rfl rfl rfl rfl hmem (Or.inr ⟨?_, ?_, ?_⟩)
    · rw [hblank.taken_eq]
    · rw [hid, h.isFinished_eq]
      exact hfin
    · intro u hu hpos
      exact (hbelow u hu hpos).1
  have hnewunit : t.id ∉ a.units := by
    intro hin
    obtain ⟨s, hs, hsid⟩ := mem_units.mp hin
    obtain ⟨u, hu, hpos, ⟨huid, -⟩ | hlt⟩ := h.kept_or_lost s hs
    · exact hother u hu (by rw [huid, hsid, hid])
    · rw [← h.position_eq, ← h.position_eq, hsid] at hpos
      have hlt' := (hbelow u hu hpos).1
      rw [hsid] at hlt
      exact Int32.lt_irrefl (Int32.lt_trans hlt hlt')
  refine ⟨h.trans hopen ha.toPlaced (hplaced.put t) ?_, ?_, hplaced.put t, ?_⟩
  · intro x hx hlost
    obtain ⟨u, hu, rfl⟩ := mem_units.mp hx
    have hpos : b.position u.id = b.position t.id := by
      by_contra hne
      exact hlost (mem_units.mpr ⟨u, (hmem u).mpr (Or.inr ⟨hu, hne⟩), rfl⟩)
    exact h.mem_units_of_lt hu (hbelow u hu hpos).2
  · rw [h.rest]
    rfl
  · intro u hu
    rcases (hmem u).mp hu with rfl | ⟨hub, -⟩
    · refine Or.inr ⟨hnewunit, ?_, ?_, ?_⟩
      · rw [hid]
        exact hblank
      · rw [hid]
        exact hstart
      · rw [hid]
        exact hle
    · exact h.old_or_blank u hub

/-- **One step of a round.** -/
theorem askUnit (h : Round a b start newest) (ha : a.Sound)
    (hnewest : a.newest = some newest) (hwindow : newest.toInt < start + (a.limits.size : Int))
    {id : Int32} (hstart : start ≤ id.toInt) (hle : id ≤ newest)
    (hfin : a.isFinished id = false) (now : Int) (budget : Nat) :
    Round a (b.askUnit now newest id budget).2 start newest := by
  unfold Assembly.askUnit
  cases hof : b.slotOf? id with
  | some s =>
      obtain ⟨hs, -⟩ := h.placed.slotOf?_eq_some.mp hof
      show Round a (if (s.ask b.limits now newest budget).1.isEmpty then b
        else b.put (s.ask b.limits now newest budget).2) start newest
      split
      · exact h
      · exact h.replace ha.toPlaced hs (Slot.like_ask s b.limits now newest budget)
  | none =>
      by_cases hid : id = newest
      · simp only [if_pos hid]
        exact h
      · simp only [if_neg hid]
        exact h.openBlank ha hnewest hwindow hstart hle hfin hof
          (Slot.like_ask { id } b.limits now newest budget)

/-- A run of steps, one for each unit from `id` on. -/
theorem askFrom (ha : a.Sound) (hnewest : a.newest = some newest)
    (hwindow : newest.toInt < start + (a.limits.size : Int))
    (hmin : Int32.minValue.toInt ≤ start)
    (hfin : ∀ id : Int32, start ≤ id.toInt → a.isFinished id = false)
    (now : Int) (n : Nat) :
    ∀ (id : Int) (budget : Nat) (wanted : Array Wanted) (b : Assembly),
      start ≤ id → id + n ≤ newest.toInt + 1 → Round a b start newest →
        Round a (Assembly.askFrom now newest n id budget wanted b).2 start newest := by
  induction n with
  | zero =>
      intro id budget wanted b _ _ h
      exact h
  | succ n ih =>
      intro id budget wanted b hstart hend h
      rw [Assembly.askFrom]
      split
      · exact h
      · have hmax := newest.toInt_lt
        have hleast : Int32.minValue.toInt = -2147483648 := by decide
        -- Between `start` and the newest unit there is no wrapping round.
        have htoInt : (Int32.ofInt id).toInt = id :=
          Int32.toInt_ofInt_of_le (by omega) (by omega)
        refine ih _ _ _ _ (by omega) (by omega) ?_
        refine h.askUnit ha hnewest hwindow ?_ ?_ (hfin _ ?_) now budget
        · omega
        · rw [Int32.le_iff_toInt_le, htoInt]
          omega
        · omega

end Round

/-! ### The window -/

/-- The window of a round is no longer than the ring. -/
theorem newest_lt_askStart_add_size {a : Assembly} (h : 0 < a.limits.size) (newest : Int32) :
    newest.toInt < a.askStart newest + (a.limits.size : Int) := by
  unfold askStart
  cases a.lastTaken with
  | none =>
      cases a.oldest with
      | none =>
          show newest.toInt < newest.toInt + _
          omega
      | some m =>
          show newest.toInt < max m.toInt _ + _
          omega
  | some t =>
      show newest.toInt < max (t.toInt + 1) _ + _
      omega

theorem minValue_le_askStart (a : Assembly) (newest : Int32) :
    Int32.minValue.toInt ≤ a.askStart newest := by
  unfold askStart
  cases a.lastTaken with
  | none =>
      cases a.oldest with
      | none => exact Int32.minValue_le_toInt newest
      | some m =>
          have hmin := Int32.minValue_le_toInt m
          show _ ≤ max m.toInt _
          omega
  | some t =>
      have hmin := Int32.minValue_le_toInt t
      show _ ≤ max (t.toInt + 1) _
      omega

/-- No unit of the window is finished. -/
theorem not_isFinished_of_askStart_le {a : Assembly} {newest id : Int32}
    (h : a.askStart newest ≤ id.toInt) : a.isFinished id = false := by
  unfold askStart at h
  unfold isFinished
  cases hlast : a.lastTaken with
  | none => rfl
  | some t =>
      rw [hlast] at h
      change max (t.toInt + 1) _ ≤ id.toInt at h
      have hlt : ¬ id ≤ t := by
        rw [Int32.le_iff_toInt_le]
        omega
      simp [hlt]

/-! ### A whole round -/

/-- An assembly that has seen nothing has nothing to ask for. -/
theorem request_of_newest_none {a : Assembly} (h : a.newest = none) (now : Int) :
    (a.request now).2 = a := by
  rw [request, h]

/-- **A round of requests opens units of its window and asks for fragments;** nothing
that was received changes. -/
theorem round_request {a : Assembly} (h : a.Sound) {newest : Int32}
    (hnewest : a.newest = some newest) (now : Int) :
    ∃ b n, Round a b (a.askStart newest) newest ∧
      (a.request now).2 =
        { b with counts := { b.counts with requested := b.counts.requested + n } } := by
  have hwindow := newest_lt_askStart_add_size h.size_pos newest
  let asked := askFrom now newest (newest.toInt - a.askStart newest + 1).toNat
    (a.askStart newest) a.limits.maxPerRound #[] a
  refine ⟨asked.2, asked.1.size, ?_, ?_⟩
  · by_cases hempty : newest.toInt < a.askStart newest
    · have hzero : (newest.toInt - a.askStart newest + 1).toNat = 0 := by omega
      have hsame : asked.2 = a := by
        show (askFrom now newest (newest.toInt - a.askStart newest + 1).toNat _ _ _ a).2 = a
        rw [hzero]
        rfl
      rw [hsame]
      exact Round.refl h.toPlaced _ _
    · refine Round.askFrom h hnewest hwindow (minValue_le_askStart a newest)
        (fun id hid => not_isFinished_of_askStart_le hid) now _ _ _ _ _ (le_refl _) ?_
        (Round.refl h.toPlaced _ _)
      omega
  · unfold request
    rw [hnewest]

theorem opening_request {a : Assembly} (h : a.Sound) (now : Int) :
    Opening a (a.request now).2 := by
  cases hnewest : a.newest with
  | none =>
      rw [request_of_newest_none hnewest]
      exact Opening.refl a
  | some newest =>
      obtain ⟨b, n, hround, hb⟩ := round_request h hnewest now
      rw [hb]
      exact ⟨hround.limits, hround.lastTaken, hround.completed, hround.skipped,
        hround.old_or_new, hround.kept_or_lost⟩

/-- After a round every slot is an old one or a blank one, but for its requests. -/
theorem old_or_blank_request {a : Assembly} (h : a.Sound) (now : Int) {t : Slot}
    (ht : t ∈ (a.request now).2) :
    (∃ s ∈ a, s.Like t) ∨ (t.id ∉ a.units ∧ ({ id := t.id } : Slot).Like t) := by
  cases hnewest : a.newest with
  | none =>
      rw [request_of_newest_none hnewest] at ht
      exact Or.inl ⟨t, ht, Slot.Like.refl t⟩
  | some newest =>
      obtain ⟨b, n, hround, hb⟩ := round_request h hnewest now
      rw [hb] at ht
      rcases hround.old_or_blank t ht with hold | ⟨hnew, hblank, -, -⟩
      · exact Or.inl hold
      · exact Or.inr ⟨hnew, hblank⟩

theorem Sound.request {a : Assembly} (h : a.Sound) (now : Int) : (a.request now).2.Sound := by
  cases hnewest : a.newest with
  | none =>
      rw [request_of_newest_none hnewest]
      exact h
  | some newest =>
      obtain ⟨b, n, hround, hb⟩ := round_request h hnewest now
      have hnewestb : b.newest = some newest := by
        rw [hround.rest]
        exact hnewest
      rw [hb]
      refine ⟨⟨hround.placed.size_pos, hround.placed.size_slots, hround.placed.placed⟩,
        ?_, ?_, ?_⟩
      · intro t ht
        rcases hround.old_or_blank t ht with ⟨s, hs, hlike⟩ | ⟨-, hblank, -⟩
        · exact hlike.sound (h.slot s hs)
        · exact hblank.sound (Slot.sound_blank t.id)
      · intro t ht
        exact ⟨newest, hnewestb, hround.id_le h hnewest ht⟩
      · intro t ht htaken
        show b.isFinished t.id = true
        rw [hround.isFinished_eq]
        rcases hround.old_or_blank t ht with ⟨s, hs, hlike⟩ | ⟨-, hblank, -⟩
        · rw [hlike.id_eq]
          exact h.finished s hs (by rw [← hlike.taken_eq]; exact htaken)
        · rw [hblank.taken_eq] at htaken
          exact Bool.noConfusion htaken

end Assembly

end Framecast
