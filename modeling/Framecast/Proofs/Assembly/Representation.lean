/-
What the fields of a ring say about each other, in whatever state it is.

A slot keeps its fragments together with the requests for them, and beside them a count, a
number received, a highest index and a mark.  `Slot.Represented` says how these fit together
once the two are told apart again: there are as many fragments as the count says, `received`
counts those that are there, `highest` is the last of them, and no fragment was asked for
more often than it may be.  `Assembly.Represented` adds where the slots stand and how far the
ring has got.

What the walks of a round do to the requests is known unit by unit: a cell notes one more
request only if it was due, and then it had one left.  This is the step that carries the
bound on the requests (`Slot.Within.asked`); everything else is read off the invariants of
the run.
-/
import Framecast.Proofs.Assembly.Missing

namespace Framecast

namespace Slot

/-! ### The fragments of a slot -/

/-- The fragments of a slot, one place for each of them once their number is known. -/
def fragments (s : Slot) : List (Option Bytes) :=
  (s.cells.take s.count).map Cell.payload

theorem getElem?_fragments (s : Slot) (i : Nat) :
    s.fragments[i]? = if i < s.count then s.cells[i]?.map Cell.payload else none := by
  rw [fragments, List.getElem?_map, List.getElem?_take]
  split <;> rfl

theorem getElem?_fragments_of_lt {s : Slot} (h : s.Sound) {i : Nat} (hi : i < s.count) :
    s.fragments[i]? = some (s.payload? i) := by
  have hlt : i < s.cells.length := by
    rw [h.length_cells]
    omega
  rw [getElem?_fragments, if_pos hi, payload?, List.getElem?_eq_getElem hlt]
  rfl

theorem length_fragments {s : Slot} (h : s.Sound) : s.fragments.length = s.count := by
  rw [fragments, List.length_map, List.length_take, h.length_cells]
  omega

/-- A fragment is there exactly if its place is filled. -/
theorem getElem?_fragments_eq_some {s : Slot} (h : s.Sound) {i : Nat} {b : Bytes} :
    s.fragments[i]? = some (some b) ↔ s.payload? i = some b := by
  by_cases hi : i < s.count
  · rw [getElem?_fragments_of_lt h hi, Option.some.injEq]
  · have hnone : s.payload? i = none := by
      rw [Option.eq_none_iff_forall_ne_some]
      intro c hc
      have hmem := h.filled_subset (mem_filled_iff_payload?.mpr ⟨c, hc⟩)
      exact hi (Finset.mem_range.mp hmem)
    rw [getElem?_fragments, if_neg hi, hnone]
    simp

theorem exists_fragment_iff {s : Slot} (h : s.Sound) {i : Nat} :
    (∃ b, s.fragments[i]? = some (some b)) ↔ i ∈ s.filled := by
  rw [mem_filled_iff_payload?]
  exact exists_congr fun b => getElem?_fragments_eq_some h

theorem card_filled (s : Slot) :
    s.filled.card = s.cells.countP fun c => c.payload.isSome := by
  have hcells : s.cells = (List.range s.cells.length).map s.cellAt := by
    refine List.ext_getElem (by simp) fun i hi _ => ?_
    simp [cellAt, List.getElem?_eq_getElem hi]
  have hholds (i : Nat) : s.holds i = (s.cellAt i).payload.isSome := by
    rw [holds, cellAt]
    cases s.cells[i]? <;> rfl
  calc s.filled.card
      = (List.range s.cells.length).countP fun i => s.holds i := by
        have hdecide : (fun i => decide (s.holds i = true)) = s.holds :=
          funext fun _ => Bool.decide_eq_true
        rw [List.countP_eq_length_filter, ← hdecide]
        rfl
    _ = ((List.range s.cells.length).map s.cellAt).countP fun c => c.payload.isSome := by
        rw [List.countP_map]
        exact List.countP_congr fun i _ => by rw [hholds]; rfl
    _ = s.cells.countP fun c => c.payload.isSome := by rw [← hcells]

theorem received_eq_countP {s : Slot} (h : s.Sound) :
    s.received = s.fragments.countP Option.isSome := by
  by_cases hzero : s.count = 0
  · rw [h.unsized hzero, fragments, hzero]
    rfl
  · have htake : s.cells.take s.count = s.cells :=
      List.take_of_length_le (by rw [h.length_cells]; omega)
    rw [h.received_eq, card_filled, fragments, htake, List.countP_map]
    rfl

/-! ### The bounds of a slot -/

/-- The numbers that a slot is allowed by the limits of its ring. -/
structure Within (s : Slot) (limits : Assembly.Limits) : Prop where
  count_le : s.count ≤ limits.maxFragments
  requests_le : ∀ c ∈ s.cells, c.requests ≤ limits.maxRequests

namespace Within

variable {s : Slot} {limits : Assembly.Limits} {p : Packet}

theorem blank (id : Int32) (limits : Assembly.Limits) : ({ id } : Slot).Within limits where
  count_le := Nat.zero_le _
  requests_le c hc := by
    rw [List.mem_singleton.mp hc]
    exact Nat.zero_le _

theorem sized (h : s.Within limits) {n : Nat} (hn : n ≤ limits.maxFragments) :
    (s.sized n).Within limits where
  count_le := hn
  requests_le c hc := by
    rcases List.mem_append.mp hc with hfirst | hnew
    · exact h.requests_le c (List.mem_of_mem_take hfirst)
    · rw [List.eq_of_mem_replicate hnew]
      exact Nat.zero_le _

theorem fill (h : s.Within limits) (i : Nat) (b : Bytes) : (s.fill i b).Within limits where
  count_le := h.count_le
  requests_le c hc := by
    obtain ⟨j, hj, rfl⟩ := List.getElem_of_mem hc
    rw [length_cells_fill] at hj
    have hbefore := h.requests_le _ (List.getElem_mem hj)
    simp only [Slot.fill, List.getElem_modify]
    split <;> exact hbefore

theorem accept (h : s.Within limits) (hp : p.count.toNat ≤ limits.maxFragments) :
    (s.accept p).Within limits := by
  unfold Slot.accept
  split
  · exact (h.sized hp).fill _ _
  · exact h.fill _ _

theorem taken (h : s.Within limits) : ({ s with taken := true } : Slot).Within limits :=
  ⟨h.count_le, h.requests_le⟩

/-- **A cell that is asked for had a request left.** -/
theorem asked (h : s.Within limits) {indices : List Nat} {now : Int} (newest : Int32)
    (hdue : ∀ i ∈ indices, i ∈ s.due limits now newest) : (s.asked indices now).Within limits where
  count_le := h.count_le
  requests_le c hc := by
    obtain ⟨i, hi⟩ := List.getElem?_of_mem hc
    rw [getElem?_asked, Option.map_eq_some_iff] at hi
    obtain ⟨d, hd, rfl⟩ := hi
    split
    · rename_i hin
      obtain ⟨-, -, -, e, he, hready⟩ := mem_due.mp (hdue i hin)
      rw [hd, Option.some.injEq] at he
      subst he
      simp only [Cell.isDue, Bool.and_eq_true, decide_eq_true_eq] at hready
      exact hready.1.2
    · exact h.requests_le d (List.mem_of_getElem? hd)

end Within

/-- The fields of a slot fit together, and fit the limits of the ring. -/
structure Represented (s : Slot) (limits : Assembly.Limits) : Prop where
  /-- There are as many fragments as the count says, none while it says nothing. -/
  length_fragments : s.fragments.length = s.count
  count_le : s.count ≤ limits.maxFragments
  /-- Requests are noted for each fragment, and for the first one from the start. -/
  length_cells : s.cells.length = max 1 s.count
  received_eq : s.received = s.fragments.countP Option.isSome
  /-- The highest index is zero or that of a fragment that is there. -/
  highest_present : s.highest = 0 ∨ ∃ b, s.fragments[s.highest]? = some (some b)
  le_highest : ∀ i b, s.fragments[i]? = some (some b) → i ≤ s.highest
  requests_le : ∀ c ∈ s.cells, c.requests ≤ limits.maxRequests

theorem represented {s : Slot} {limits : Assembly.Limits} (h : s.Gauged) (h' : s.Within limits) :
    s.Represented limits where
  length_fragments := Slot.length_fragments h.sound
  count_le := h'.count_le
  length_cells := by rw [h.sound.length_cells, Nat.max_comm]
  received_eq := received_eq_countP h.sound
  highest_present := by
    by_cases hnone : s.filled = ∅
    · left
      rw [h.topped, hnone]
      rfl
    · right
      exact (exists_fragment_iff h.sound).mpr (h.topped.highest_mem hnone)
  le_highest i b hb := h.topped.le ((exists_fragment_iff h.sound).mp ⟨b, hb⟩)
  requests_le := h'.requests_le

end Slot

namespace Assembly

/-! ### The bounds of a ring -/

/-- The slots of a ring stand where they belong and are within its limits. -/
structure Fitted (a : Assembly) : Prop extends Placed a where
  gauged : ∀ s ∈ a, s.Gauged
  within : ∀ s ∈ a, s.Within a.limits

/-- The numbers of a ring are within its limits, and what it handed on it had seen. -/
structure Bounded (a : Assembly) : Prop extends Sound a, Fitted a where
  lastTaken_le : ∀ t, a.lastTaken = some t → ∃ n, a.newest = some n ∧ t ≤ n
  /-- The unit handed on last is not waited for any more. -/
  taken_of_lastTaken : ∀ s ∈ a, a.lastTaken = some s.id → s.taken = true

theorem bounded_empty (channel : Channel) (limits : Limits) : (empty channel limits).Bounded where
  toSound := sound_empty channel limits
  gauged s hs := absurd hs (not_mem_empty channel limits s)
  within s hs := absurd hs (not_mem_empty channel limits s)
  lastTaken_le t ht := by cases ht
  taken_of_lastTaken s hs := absurd hs (not_mem_empty channel limits s)

/-- What is due of a unit that has a slot is due of that slot. -/
theorem Placed.dueOf_eq_of_mem {a : Assembly} (h : a.Placed) {s : Slot} (hs : s ∈ a) (now : Int)
    (newest : Int32) : a.dueOf now newest s.id = s.due a.limits now newest := by
  rw [dueOf, h.slotOf?_eq_some.mpr ⟨hs, rfl⟩]

/-- What is due of a unit that has none is due of the slot it would get. -/
theorem mem_due_blank {a : Assembly} {id newest : Int32} {now : Int} (hnone : a.slotOf? id = none)
    {i : Nat} (hi : i ∈ a.dueOf now newest id) :
    i ∈ ({ id } : Slot).due a.limits now newest := by
  rw [dueOf, hnone] at hi
  change i ∈ (if id = newest then [] else _) at hi
  split at hi
  · cases hi
  · exact hi

/-- A slot that was asked for what is due of its unit keeps within the limits. -/
theorem Fitted.within_asked {a : Assembly} (h : a.Fitted) {s : Slot} {indices : List Nat}
    {now : Int} (newest : Int32)
    (hs : s ∈ a ∨ a.slotOf? s.id = none ∧ s = { id := s.id })
    (hdue : ∀ i ∈ indices, i ∈ a.dueOf now newest s.id) :
    (s.asked indices now).Within a.limits := by
  rcases hs with hold | ⟨hnone, hblank⟩
  · refine (h.within s hold).asked newest fun i hi => ?_
    rw [← h.dueOf_eq_of_mem hold]
    exact hdue i hi
  · have hwithin : s.Within a.limits := by
      rw [hblank]
      exact Slot.Within.blank s.id a.limits
    refine hwithin.asked newest fun i hi => ?_
    rw [hblank]
    exact mem_due_blank hnone (hdue i hi)

theorem admits_count_le {a : Assembly} {p : Packet} (h : a.admits p = true) :
    p.count.toNat ≤ a.limits.maxFragments := by
  simp only [admits, Bool.and_eq_true, decide_eq_true_eq] at h
  exact h.1.2

theorem within_perform {a : Assembly} (h : a.Bounded) (c : Call) :
    ∀ t ∈ (a.perform c).2, t.Within a.limits := by
  intro t ht
  cases c with
  | receive p =>
      change t ∈ (a.receive p).2 at ht
      rcases receive_cases h.toSound p with hrefused | ⟨s, hs⟩
      · exact h.within t (hrefused.mem_iff.mp ht)
      · rw [receive_of_takesIn h.toSound hs] at ht
        rcases (hs.mem_keepIn h.toSound).mp ht with rfl | ⟨hold, -⟩
        · have hbefore : s.Within a.limits := by
            rcases hs.place with hold | ⟨rfl, -⟩
            · exact h.within s hold
            · exact Slot.Within.blank p.id a.limits
          exact hbefore.accept (admits_count_le hs.admits)
        · exact h.within t hold
  | take id =>
      rcases perform_take h.toPlaced id with hp | ⟨s, hs, -, -, -, hp⟩
      · rw [hp] at ht
        exact h.within t ht
      · rw [hp] at ht
        obtain ⟨u, hu, rfl⟩ := (mem_handOn h.toPlaced hs).mp ht
        unfold settle
        split
        · exact (h.within u hu).taken
        · exact h.within u hu
  | request now =>
      change t ∈ (a.request now).2 at ht
      cases hnewest : a.newest with
      | none =>
          rw [request_of_newest_none hnewest] at ht
          exact h.within t ht
      | some newest =>
          obtain ⟨s, hs, hts⟩ := exists_of_mem_request h.toPlaced hnewest ht
          have hid : s.id = t.id := by rw [hts, Slot.id_asked]
          rw [hts]
          refine h.toFitted.within_asked newest ?_ fun i hi => ?_
          · rw [hid]
            exact hs.imp_right fun hblank => ⟨hblank.1, hblank.2.1⟩
          · rw [hid]
            exact (mem_asksFor h.toPlaced (mem_indicesOf.mp hi)).2.2

/-- A call never makes the newest unit older. -/
theorem exists_newest_perform {a : Assembly} (h : a.Sound) (c : Call) {n : Int32}
    (hn : a.newest = some n) : ∃ m, (a.perform c).2.newest = some m ∧ n ≤ m := by
  cases c with
  | receive p =>
      show ∃ m, (a.receive p).2.newest = some m ∧ n ≤ m
      rcases receive_cases h p with hrefused | ⟨s, hs⟩
      · refine ⟨n, ?_, Int32.le_refl _⟩
        rcases hrefused.rest with hr | hr
        · rw [hr]
          exact hn
        · rw [hr]
          exact hn
      · rw [receive_of_takesIn h hs]
        obtain ⟨m, hm, -, hle⟩ := newest_noteKept ((a.makeRoom p.id).put (s.accept p)) p
        refine ⟨m, hm, hle n ?_⟩
        rw [makeRoom_eq]
        exact hn
  | take id =>
      refine ⟨n, ?_, Int32.le_refl _⟩
      rcases perform_take h.toPlaced id with hp | ⟨s, -, -, -, -, hp⟩
      · rw [hp]
        exact hn
      · rw [hp]
        exact hn
  | request now =>
      refine ⟨n, ?_, Int32.le_refl _⟩
      show (a.request now).2.newest = some n
      obtain ⟨b, k, hround, hb⟩ := round_request h hn now
      rw [hb, hround.rest]
      exact hn

/-- The unit handed on last is the one just handed on, or the one from before. -/
theorem lastTaken_handOn {a : Assembly} {s : Slot} {t : Int32}
    (ht : (a.handOn s).lastTaken = some t) : t = s.id ∨ a.lastTaken = some t := by
  simp only [handOn, Option.some.injEq] at ht
  cases hlast : a.lastTaken with
  | none =>
      rw [hlast] at ht
      exact Or.inl ht.symm
  | some u =>
      simp only [hlast] at ht
      split at ht
      · exact Or.inl ht.symm
      · exact Or.inr (by rw [ht])

/-- Only handing a unit on changes which one was handed on last. -/
theorem lastTaken_perform {a : Assembly} (h : a.Sound) (c : Call) {t : Int32}
    (ht : (a.perform c).2.lastTaken = some t) :
    a.lastTaken = some t ∨ ∃ s ∈ a, s.id = t := by
  cases c with
  | receive p =>
      left
      rw [← (opening_receive h p).lastTaken]
      exact ht
  | take id =>
      rcases perform_take h.toPlaced id with hp | ⟨s, hs, -, -, -, hp⟩
      · rw [hp] at ht
        exact Or.inl ht
      · rw [hp] at ht
        exact (lastTaken_handOn ht).symm.imp_right fun hid => ⟨s, hs, hid.symm⟩
  | request now =>
      left
      rw [← (opening_request h now).lastTaken]
      exact ht

/-- The unit handed on last is never waited for again. -/
theorem taken_of_lastTaken_perform {a : Assembly} (h : a.Bounded) (c : Call) :
    ∀ t ∈ (a.perform c).2, (a.perform c).2.lastTaken = some t.id → t.taken = true := by
  intro t ht hlast
  cases c with
  | receive p =>
      change t ∈ (a.receive p).2 at ht
      change (a.receive p).2.lastTaken = some t.id at hlast
      rw [(opening_receive h.toSound p).lastTaken] at hlast
      rcases receive_cases h.toSound p with hrefused | ⟨s, hs⟩
      · exact h.taken_of_lastTaken t (hrefused.mem_iff.mp ht) hlast
      · rw [receive_of_takesIn h.toSound hs] at ht
        rcases (hs.mem_keepIn h.toSound).mp ht with rfl | ⟨hold, -⟩
        · have hfin : a.isFinished p.id = true := by
            rw [isFinished, hlast]
            simp [hs.id_eq]
          rw [hs.unfinished] at hfin
          exact Bool.noConfusion hfin
        · exact h.taken_of_lastTaken t hold hlast
  | take id =>
      rcases perform_take h.toPlaced id with hp | ⟨s, hs, -, -, -, hp⟩
      · rw [hp] at ht hlast
        exact h.taken_of_lastTaken t ht hlast
      · rw [hp] at ht hlast
        obtain ⟨u, hu, rfl⟩ := (mem_handOn h.toPlaced hs).mp ht
        rw [id_settle] at hlast
        refine (taken_settle a s.id u).mpr ?_
        rcases lastTaken_handOn hlast with hid | hbefore
        · exact Or.inr (Or.inl hid)
        · exact Or.inl (h.taken_of_lastTaken u hu hbefore)
  | request now =>
      change t ∈ (a.request now).2 at ht
      change (a.request now).2.lastTaken = some t.id at hlast
      rw [(opening_request h.toSound now).lastTaken] at hlast
      cases hnewest : a.newest with
      | none =>
          rw [request_of_newest_none hnewest] at ht
          exact h.taken_of_lastTaken t ht hlast
      | some newest =>
          obtain ⟨s, hs, hts⟩ := exists_of_mem_request h.toPlaced hnewest ht
          have hid : s.id = t.id := by rw [hts, Slot.id_asked]
          rw [hts]
          rcases hs with hold | ⟨-, -, hstart, -⟩
          · exact h.taken_of_lastTaken s hold (by rw [hid]; exact hlast)
          · have hopen := not_isFinished_of_askStart_le hstart
            rw [isFinished, hlast] at hopen
            simp at hopen

/-- **Every call keeps the numbers of a ring within its limits.** -/
theorem Bounded.perform {a : Assembly} (h : a.Bounded) (c : Call) : (a.perform c).2.Bounded where
  toSound := h.toSound.perform c
  gauged := gauged_perform h.toSound h.gauged c
  within := by
    rw [(perform_limits h.toSound c).1]
    exact within_perform h c
  lastTaken_le := by
    intro t ht
    obtain ⟨n, hn, hle⟩ : ∃ n, a.newest = some n ∧ t ≤ n := by
      rcases lastTaken_perform h.toSound c ht with hlast | ⟨s, hs, rfl⟩
      · exact h.lastTaken_le t hlast
      · exact h.newest s hs
    obtain ⟨m, hm, hnm⟩ := exists_newest_perform h.toSound c hn
    exact ⟨m, hm, Int32.le_trans hle hnm⟩
  taken_of_lastTaken := taken_of_lastTaken_perform h c

theorem Bounded.run {a : Assembly} (h : a.Bounded) (calls : List Call) : (a.run calls).Bounded := by
  induction calls generalizing a with
  | nil => exact h
  | cons c rest ih => exact ih (h.perform c)

/-! ### The representation of a ring -/

/-- The fields of a ring fit together. -/
structure Represented (a : Assembly) : Prop where
  size_slots : a.slots.size = a.limits.size
  /-- A slot stands at the remainder of its unit. -/
  placed : ∀ (i : Nat) s, a.slots[i]? = some (some s) →
    s.id.toInt % (a.limits.size : Int) = i
  slot : ∀ (i : Nat) s, a.slots[i]? = some (some s) → s.Represented a.limits
  seen : ∀ (i : Nat) s, a.slots[i]? = some (some s) → ∃ n, a.newest = some n ∧ s.id ≤ n
  taken : ∀ (i : Nat) s, a.slots[i]? = some (some s) → s.taken = true →
    ∃ t, a.lastTaken = some t ∧ s.id ≤ t
  lastTaken_le : ∀ t, a.lastTaken = some t → ∃ n, a.newest = some n ∧ t ≤ n
  /-- The newest unit has its slot. -/
  newest_mem : ∀ n, a.newest = some n →
    ∃ s, a.slots[(n.toInt % (a.limits.size : Int)).toNat]? = some (some s) ∧ s.id = n

/-- A ring within its limits is represented if its newest unit has a slot. -/
theorem Bounded.represented {a : Assembly} (h : a.Bounded)
    (hnewest : ∀ n, a.newest = some n → a.slotOf? n ≠ none) : a.Represented where
  size_slots := h.size_slots
  placed i s hs := by
    have hposition := h.placed i s hs
    have hpos := h.size_pos
    have hnonneg := Int.emod_nonneg s.id.toInt (by omega : (a.limits.size : Int) ≠ 0)
    unfold position at hposition
    omega
  slot i s hs := by
    have hmem : s ∈ a := (h.getElem?_eq_some_iff.mp hs).1
    exact Slot.represented (h.gauged s hmem) (h.within s hmem)
  seen i s hs := h.newest s (h.getElem?_eq_some_iff.mp hs).1
  taken i s hs htaken := by
    have hfin := h.finished s (h.getElem?_eq_some_iff.mp hs).1 htaken
    simpa [isFinished, Option.any_eq_true] using hfin
  lastTaken_le := h.lastTaken_le
  newest_mem n hn := by
    obtain ⟨s, hs⟩ := Option.ne_none_iff_exists'.mp (hnewest n hn)
    obtain ⟨hmem, hid⟩ := h.slotOf?_eq_some.mp hs
    refine ⟨s, ?_, hid⟩
    rw [← hid]
    exact h.getElem?_position hmem

/-- **A ring is represented after every run.** -/
theorem represented_run (channel : Channel) (limits : Limits) (calls : List Call) :
    ((empty channel limits).run calls).Represented :=
  ((bounded_empty channel limits).run calls).represented fun _ hn =>
    (ongoing_run channel limits calls hn).newest_mem

end Assembly

end Framecast
