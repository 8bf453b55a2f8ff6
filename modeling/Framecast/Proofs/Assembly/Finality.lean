/-
What is over stays over.

A position of the ring only ever goes to younger units, so the unit that stands there
climbs.  A unit is `Over` once it is finished, or once a younger one stands at its
position.  No call undoes either.  A packet of such a unit is refused unread, and no round
asks for it: the units of a round are not finished, and there are no more of them than the
ring has slots, so what stands at their positions is no younger.

The ways in which a unit comes to an end are all of this kind.  A unit that was handed on
is finished, and so is every older one; a unit that was pushed out of its slot was pushed
out by a younger one.
-/
import Framecast.Proofs.Assembly.Balance
import Framecast.Proofs.Assembly.Wanted

namespace Framecast

namespace Assembly

/-! ### Positions climb -/

section Climbing

variable {a : Assembly} {id : Int32}

theorem position_run (h : a.Sound) (calls : List Call) (id : Int32) :
    (a.run calls).position id = a.position id := by
  rw [position, position, (run_limits h calls).1]

/-- **The unit at a place of the ring only climbs.** -/
theorem climbs_run (h : a.Sound) (calls : List Call) {i : Nat} {s : Slot}
    (hs : a.slots[i]? = some (some s)) :
    ∃ t, (a.run calls).slots[i]? = some (some t) ∧ s.id ≤ t.id := by
  obtain ⟨hmem, rfl⟩ := h.getElem?_eq_some_iff.mp hs
  obtain ⟨t, ht, hpos, hle⟩ := exists_ge_run h calls ⟨s, hmem, rfl, Int32.le_refl _⟩
  refine ⟨t, (h.run calls).getElem?_eq_some_iff.mpr ⟨ht, ?_⟩, hle⟩
  rw [hpos, position_run h]

end Climbing

/-! ### Units that are over -/

/-- The unit is finished, or a younger one stands at its position. -/
def Over (a : Assembly) (id : Int32) : Prop :=
  a.isFinished id = true ∨ ∃ s ∈ a, a.position s.id = a.position id ∧ id < s.id

namespace Over

variable {a : Assembly} {id : Int32}

/-- **A unit that is over stays over.** -/
theorem perform (hover : a.Over id) (h : a.Sound) (c : Call) : (a.perform c).2.Over id := by
  rcases hover with hfin | ⟨s, hs, hpos, hlt⟩
  · exact Or.inl (isFinished_perform h c hfin)
  · obtain ⟨t, ht, htpos, hle⟩ := exists_ge_perform h c ⟨s, hs, rfl, Int32.le_refl _⟩
    refine Or.inr ⟨t, ht, ?_, Int32.lt_of_lt_of_le hlt hle⟩
    rw [htpos]
    unfold position at hpos ⊢
    rw [(perform_limits h c).1]
    exact hpos

/-- A packet of a unit that is over is stale, if it can belong to the channel at all. -/
theorem receive (hover : a.Over id) (h : a.Placed) {p : Packet} (hp : p.id = id) :
    (a.receive p).1 = .stale ∨ (a.receive p).1 = .invalid := by
  subst hp
  unfold Assembly.receive
  by_cases hadmits : a.admits p = true
  swap
  · rw [if_pos hadmits]
    exact Or.inr rfl
  rw [if_neg fun hc => hc hadmits]
  by_cases hfin : a.isFinished p.id = true
  · rw [if_pos hfin]
    exact Or.inl rfl
  rw [if_neg hfin]
  obtain ⟨s, hs, hpos, hlt⟩ := hover.resolve_left hfin
  rw [h.slotAt?_eq_some.mpr ⟨hs, hpos⟩]
  dsimp only
  rw [if_pos hlt]
  exact Or.inl rfl

/-- No round asks for a unit that is over. -/
theorem not_requested (hover : a.Over id) (h : a.Sound) (now : Int) {w : Wanted}
    (hw : w ∈ (a.request now).1) : w.1 ≠ id := by
  rintro rfl
  cases hnewest : a.newest with
  | none =>
      rw [request, hnewest] at hw
      cases hw
  | some newest =>
      rw [request_fst h.toPlaced hnewest, List.mem_map] at hw
      obtain ⟨v, hv, rfl⟩ := hw
      obtain ⟨hstart, hle, -⟩ := mem_asksFor h.toPlaced hv
      rcases hover with hfin | ⟨s, hs, hpos, hlt⟩
      · rw [wanted, not_isFinished_of_askStart_le hstart] at hfin
        exact Bool.noConfusion hfin
      · -- A whole ring above a unit of the window nothing was seen yet.
        have hfar := add_size_le_of_position_eq h.size_pos hpos.symm hlt
        have hwindow := newest_lt_askStart_add_size h.size_pos newest
        obtain ⟨n, hn, hsn⟩ := h.newest s hs
        rw [hnewest, Option.some.injEq] at hn
        rw [← hn, Int32.le_iff_toInt_le] at hsn
        change v.1.toInt + _ ≤ _ at hfar
        omega

end Over

/-! ### How units come to be over -/

namespace Books

variable {steps : List Step} {a : Assembly} {id : Int32}

theorem over_of_delivered (h : Books steps a) (hid : id ∈ delivered steps) : a.Over id :=
  Or.inl (h.finished id (Or.inl hid)).2

/-- Handing a unit on ends every older one, too. -/
theorem over_of_le (h : Books steps a) {x : Int32} (hx : x ∈ delivered steps) (hle : id ≤ x) :
    a.Over id :=
  Or.inl (isFinished_of_le hle (h.finished x (Or.inl hx)).2)

/-- A unit that is pushed out is pushed out by a younger one. -/
theorem over_of_lost (h : Books steps a) (hheld : id ∈ everHeld steps) (hlost : id ∉ a.units) :
    a.Over id := by
  obtain ⟨s, hs, hpos, hle⟩ := h.present id hheld
  refine Or.inr ⟨s, hs, hpos, Int32.lt_of_le_of_ne hle ?_⟩
  intro heq
  exact hlost (mem_units.mpr ⟨s, hs, heq.symm⟩)

end Books

/-! ### Whole runs -/

/-- The step has nothing more to do with a unit: it refuses its packets without looking
into the unit, and does not ask for it. -/
def Step.Ignores (st : Step) (id : Int32) : Prop :=
  (∀ p v, st.call = .receive p → p.id = id → st.answer = .verdict v → v = .stale ∨ v = .invalid) ∧
    ∀ l, st.answer = .wanted l → ∀ w ∈ l, w.1 ≠ id

theorem Over.ignores {a : Assembly} {id : Int32} (hover : a.Over id) (h : a.Sound) (c : Call) :
    (a.step c).Ignores id := by
  refine ⟨?_, ?_⟩
  · rintro p v hcall hid hv
    cases hcall
    cases hv
    exact hover.receive h.toPlaced hid
  · intro l hl w hw
    cases c with
    | receive p => cases hl
    | take x =>
        change (a.perform (.take x)).1 = _ at hl
        rcases perform_take h.toPlaced x with hp | ⟨s, -, -, -, -, hp⟩
        · rw [hp] at hl
          cases hl
        · rw [hp] at hl
          cases hl
    | request now =>
        cases hl
        exact hover.not_requested h now hw

theorem Over.ignores_run {a : Assembly} {id : Int32} (hover : a.Over id) (h : a.Sound)
    (calls : List Call) : ∀ st ∈ a.trace calls, st.Ignores id := by
  induction calls generalizing a with
  | nil =>
      intro st hst
      cases hst
  | cons c rest ih =>
      intro st hst
      rcases List.mem_cons.mp hst with rfl | hlater
      · exact hover.ignores h c
      · exact ih (hover.perform h c) (h.perform c) st hlater

/-- How often a unit was handed on. -/
def timesDelivered (steps : List Step) (id : Int32) : Nat :=
  steps.countP fun st => id ∈ st.delivered

/-- What a call hands on was not handed on before. -/
theorem Books.not_delivered_before {steps : List Step} {a : Assembly} (h : Books steps a)
    (ha : a.Placed) {c : Call} {id : Int32} (hid : id ∈ (a.step c).delivered) :
    id ∉ delivered steps := by
  cases c with
  | receive p => exact absurd hid (Finset.notMem_empty id)
  | request now => exact absurd hid (Finset.notMem_empty id)
  | take x =>
      rcases perform_take ha x with hp | ⟨s, hs, hsid, hopen, -, hp⟩
      · simp [step, hp, Step.delivered] at hid
      · simp only [step, hp, Step.delivered, Finset.mem_singleton] at hid
        rw [hid, ← hsid]
        exact (h.not_mem_of_not_taken hs hopen).1

theorem timesDelivered_run (channel : Channel) (limits : Limits) (calls : List Call)
    (id : Int32) :
    timesDelivered ((empty channel limits).trace calls) id =
      if id ∈ delivered ((empty channel limits).trace calls) then 1 else 0 := by
  induction calls using List.reverseRecOn with
  | nil => rfl
  | append_singleton calls c ih =>
      have hbooks := Books.run channel limits calls
      have hplaced := ((sound_empty channel limits).run calls).toPlaced
      have hmem := mem_delivered_concat ((empty channel limits).trace calls)
        (((empty channel limits).run calls).step c) id
      rw [trace_concat, timesDelivered, List.countP_append, List.countP_singleton,
        ← timesDelivered, ih]
      by_cases hnew : id ∈ (((empty channel limits).run calls).step c).delivered
      · have hold := hbooks.not_delivered_before hplaced hnew
        rw [if_neg hold, if_pos (hmem.mpr (Or.inr hnew))]
        simp [hnew]
      · rw [if_congr (hmem.trans (or_iff_left hnew)) rfl rfl]
        simp [hnew]

/--
**Finished units never come back.**  Of any run and any way it goes on:

* the unit that stands at a place of the ring never gets older;
* no unit is handed on twice;
* a unit that was handed on, or had a slot and has none now, or is no younger than one
  that was handed on, is ignored from then on: its packets are stale, or cannot belong to
  the channel at all, and no round asks for it.
-/
theorem finished_units_stay_finished (channel : Channel) (limits : Limits)
    (calls later : List Call) :
    let steps := (empty channel limits).trace calls
    let a := (empty channel limits).run calls
    (∀ (i : Nat) (s : Slot), a.slots[i]? = some (some s) →
      ∃ t, (a.run later).slots[i]? = some (some t) ∧ s.id ≤ t.id) ∧
    (∀ id, timesDelivered (steps ++ a.trace later) id ≤ 1) ∧
    ∀ id, (id ∈ delivered steps ∨ (id ∈ everHeld steps ∧ id ∉ a.units) ∨
        ∃ x ∈ delivered steps, id ≤ x) →
      ∀ st ∈ a.trace later, st.Ignores id := by
  intro steps a
  have hsound : a.Sound := (sound_empty channel limits).run calls
  have hbooks : Books steps a := Books.run channel limits calls
  refine ⟨fun i s hs => climbs_run hsound later hs, fun id => ?_, fun id hid => ?_⟩
  · rw [← trace_append, timesDelivered_run]
    split <;> omega
  · have hover : a.Over id := by
      rcases hid with hd | ⟨hheld, hlost⟩ | ⟨x, hx, hle⟩
      · exact hbooks.over_of_delivered hd
      · exact hbooks.over_of_lost hheld hlost
      · exact hbooks.over_of_le hx hle
    exact hover.ignores_run hsound later

/-- A ring of two slots: unit 2 pushes unit 0 out, whose packet is stale when it comes
again, with unit 1 wanted in between. -/
theorem pushed_out_unit_is_ignored :
    ∀ st ∈ ((empty .video { size := 2 }).run
        [.receive { id := 0, count := 2 }, .receive { id := 2 }]).trace
          [.request 5, .receive { id := 0, index := 1, count := 2 }], st.Ignores 0 :=
  (finished_units_stay_finished .video { size := 2 }
    [.receive { id := 0, count := 2 }, .receive { id := 2 }]
    [.request 5, .receive { id := 0, index := 1, count := 2 }]).2.2 0
      (Or.inr (Or.inl (by decide +kernel)))

end Assembly

end Framecast
