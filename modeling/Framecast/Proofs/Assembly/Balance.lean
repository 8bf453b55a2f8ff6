/-
The accounts of an assembly balance, but for what is left behind.

Handing a unit on is the one call that gives units up by marking them, and the one that
finishes units.  A unit that waited and is older than the one handed on is given up or
passed over: passed over if nothing was handed on before and it lies a whole ring or
more below, given up otherwise.  This is what `posts_of_handOn` says.

With what openings post, the books are kept over every run.  Every unit that ever had a
slot is then on exactly one account.
-/
import Framecast.Proofs.Assembly.Accounts

namespace Framecast

namespace Assembly

/-! ### Handing on, as units -/

theorem givesUp_iff {a : Assembly} {id : Int32} {u : Slot} :
    a.givesUp id u = true ↔ a.skipFrom id ≤ u.id.toInt ∧ u.id < id ∧ u.taken = false := by
  simp [givesUp, and_assoc]

theorem expects_of_givesUp {a : Assembly} {id : Int32} {u : Slot}
    (h : a.givesUp id u = true) : a.expects u = true := by
  obtain ⟨hfrom, -, htaken⟩ := givesUp_iff.mp h
  refine expects_iff.mpr ⟨htaken, ?_⟩
  by_contra hfin
  obtain ⟨t, ht, hle⟩ := isFinished_iff.mp (by simpa using hfin)
  rw [skipFrom, ht] at hfrom
  rw [Int32.le_iff_toInt_le] at hle
  change t.toInt + 1 ≤ u.id.toInt at hfrom
  omega

/-- An older unit that is expected and not given up is a whole ring below the first unit
handed on. -/
theorem far_below_of_not_givesUp {a : Assembly} {id : Int32} {u : Slot}
    (hexp : a.expects u = true) (hlt : u.id < id) (hnot : ¬ a.givesUp id u = true) :
    a.lastTaken = none ∧ u.id.toInt + (a.limits.size : Int) ≤ id.toInt := by
  obtain ⟨htaken, hfin⟩ := expects_iff.mp hexp
  have hfrom : ¬ a.skipFrom id ≤ u.id.toInt := fun hc => hnot (givesUp_iff.mpr ⟨hc, hlt, htaken⟩)
  cases hlast : a.lastTaken with
  | none =>
      rw [skipFrom, hlast] at hfrom
      change ¬ id.toInt - ((a.limits.size : Int) - 1) ≤ u.id.toInt at hfrom
      refine ⟨rfl, ?_⟩
      omega
  | some t =>
      exfalso
      rw [skipFrom, hlast] at hfrom
      change ¬ t.toInt + 1 ≤ u.id.toInt at hfrom
      have hle : u.id ≤ t := by
        rw [Int32.le_iff_toInt_le]
        omega
      rw [isFinished_iff.mpr ⟨t, hlast, hle⟩] at hfin
      exact Bool.noConfusion hfin

section HandOn

variable {a : Assembly} {s : Slot}

theorem units_handOn (h : a.Placed) (hs : s ∈ a) : (a.handOn s).units = a.units := by
  ext id
  rw [mem_units, mem_units]
  constructor
  · rintro ⟨t, ht, rfl⟩
    obtain ⟨u, hu, rfl⟩ := (mem_handOn h hs).mp ht
    exact ⟨u, hu, (id_settle a s.id u).symm⟩
  · rintro ⟨u, hu, rfl⟩
    exact ⟨a.settle s.id u, (mem_handOn h hs).mpr ⟨u, hu, rfl⟩, id_settle a s.id u⟩

theorem mem_untaken_handOn (h : a.Placed) (hs : s ∈ a) {u : Slot} (hu : u ∈ a) :
    u.id ∈ (a.handOn s).untaken ↔
      u.taken = false ∧ u.id ≠ s.id ∧ ¬ a.givesUp s.id u = true := by
  have hmark : (a.settle s.id u).taken = false ↔
      u.taken = false ∧ u.id ≠ s.id ∧ ¬ a.givesUp s.id u = true := by
    rw [← Bool.not_eq_true, taken_settle, not_or, not_or, Bool.not_eq_true]
  rw [← hmark, mem_untaken]
  constructor
  · rintro ⟨t, ht, htaken, hid⟩
    obtain ⟨v, hv, rfl⟩ := (mem_handOn h hs).mp ht
    rw [id_settle] at hid
    rw [← h.eq_of_id_eq hv hu hid]
    exact htaken
  · intro htaken
    exact ⟨_, (mem_handOn h hs).mpr ⟨u, hu, rfl⟩, htaken, id_settle a s.id u⟩

theorem waiting_handOn (h : a.Placed) (hs : s ∈ a) {u : Slot} (hu : u ∈ a)
    (hexp : a.expects u = true) (hlt : s.id < u.id) : u.id ∈ (a.handOn s).waiting := by
  obtain ⟨htaken, hfin⟩ := expects_iff.mp hexp
  have hnot : ¬ a.givesUp s.id u = true := fun hc =>
    Int32.lt_irrefl (Int32.lt_trans hlt (id_lt_of_givesUp hc))
  have hne : u.id ≠ s.id := fun hc => by
    rw [hc] at hlt
    exact Int32.lt_irrefl hlt
  obtain ⟨t, ht, htaken', hid⟩ :=
    mem_untaken.mp ((mem_untaken_handOn h hs hu).mpr ⟨htaken, hne, hnot⟩)
  refine mem_waiting.mpr ⟨t, ht, expects_iff.mpr ⟨htaken', ?_⟩, hid⟩
  rw [← Bool.not_eq_true, isFinished_handOn, hid, not_or, Bool.not_eq_true]
  refine ⟨hfin, fun hle => ?_⟩
  exact Int32.lt_irrefl (Int32.lt_of_lt_of_le hlt hle)

theorem skipped_handOn (h : a.Placed) (hs : s ∈ a) :
    (a.handOn s).counts.skipped = a.counts.skipped + (a.pick (a.givesUp s.id)).card := by
  have hput : (a.put { s with taken := true }).pick (a.givesUp s.id) =
      a.pick (a.givesUp s.id) := by
    ext id
    rw [mem_pick, mem_pick]
    constructor
    · rintro ⟨t, ht, hgives, hid⟩
      rcases h.mem_put.mp ht with rfl | ⟨hta, -⟩
      · exact absurd (id_lt_of_givesUp hgives) Int32.lt_irrefl
      · exact ⟨t, hta, hgives, hid⟩
    · rintro ⟨t, ht, hgives, hid⟩
      refine ⟨t, h.mem_put.mpr (Or.inr ⟨ht, fun hpos => ?_⟩), hgives, hid⟩
      have hts : t = s := h.eq_of_position_eq ht hs hpos
      have hlt := id_lt_of_givesUp hgives
      rw [hts] at hlt
      exact Int32.lt_irrefl hlt
  rw [← hput, card_pick (h.put _)]
  rfl

theorem completed_handOn (a : Assembly) (s : Slot) :
    (a.handOn s).counts.completed = a.counts.completed + 1 := rfl

/-- What handing on writes off is what it gives up. -/
theorem writtenOff_of_handOn (h : a.Placed) (hs : s ∈ a) {st : Step} (hbefore : st.before = a)
    (hafter : st.after = a.handOn s) (hdelivered : st.delivered = {s.id}) :
    st.writtenOff = a.pick (a.givesUp s.id) := by
  ext id
  rw [Step.writtenOff, hbefore, hafter, hdelivered, Finset.mem_sdiff, Finset.mem_sdiff,
    Finset.mem_singleton, mem_pick]
  constructor
  · rintro ⟨⟨hwait, hmarked⟩, hne⟩
    obtain ⟨u, hu, hexp, rfl⟩ := mem_waiting.mp hwait
    rw [mem_untaken_handOn h hs hu] at hmarked
    refine ⟨u, hu, ?_, rfl⟩
    by_contra hnot
    exact hmarked ⟨(expects_iff.mp hexp).1, hne, hnot⟩
  · rintro ⟨u, hu, hgives, rfl⟩
    rw [mem_untaken_handOn h hs hu]
    have hlt := id_lt_of_givesUp hgives
    refine ⟨⟨mem_waiting.mpr ⟨u, hu, expects_of_givesUp hgives, rfl⟩, ?_⟩, ?_⟩
    · rintro ⟨-, -, hnot⟩
      exact hnot hgives
    · intro hid
      rw [hid] at hlt
      exact Int32.lt_irrefl hlt

theorem mem_passedOver_of_handOn {st : Step} (hbefore : st.before = a)
    (hdelivered : st.delivered = {s.id}) {id : Int32} :
    id ∈ st.passedOver ↔
      a.lastTaken = none ∧ id ∈ a.units ∧ id.toInt + (a.limits.size : Int) ≤ s.id.toInt := by
  rw [Step.passedOver, hbefore, hdelivered]
  split
  · rename_i hlast
    simp [hlast]
  · rename_i hlast
    simp [hlast]

end HandOn

/-! ### What handing on posts -/

section Posting

variable {a : Assembly} {s : Slot} {st : Step}

theorem located_handOn {steps : List Step} (h : Located steps a) (ha : a.Placed) (hs : s ∈ a)
    (hafter : st.after = a.handOn s) : Located (steps ++ [st]) st.after where
  units := by
    intro id hid
    rw [mem_everHeld_concat]
    exact Or.inr hid
  present := by
    intro id hid
    have hold : id ∈ everHeld steps := by
      rcases (mem_everHeld_concat steps st id).mp hid with hold | hnew
      · exact hold
      · rw [hafter, units_handOn ha hs] at hnew
        exact h.units hnew
    rw [hafter]
    exact exists_ge_handOn ha hs (h.present id hold)

theorem waiting_of_passedOver (ha : a.Sound) {id : Int32} (hlast : a.lastTaken = none)
    (hid : id ∈ a.units) : id ∈ a.waiting := by
  obtain ⟨u, hu, rfl⟩ := mem_units.mp hid
  have hfin : a.isFinished u.id = false := by
    rw [isFinished, hlast]
    rfl
  refine mem_waiting.mpr ⟨u, hu, expects_iff.mpr ⟨?_, hfin⟩, rfl⟩
  by_contra htaken
  have := ha.finished u hu (by simpa using htaken)
  rw [hfin] at this
  exact Bool.noConfusion this

/-- What is given up is not passed over: it is less than a ring below. -/
theorem not_far_below_of_givesUp {id : Int32} {u : Slot} (h : a.givesUp id u = true)
    (hlast : a.lastTaken = none) : ¬ u.id.toInt + (a.limits.size : Int) ≤ id.toInt := by
  obtain ⟨hfrom, -, -⟩ := givesUp_iff.mp h
  rw [skipFrom, hlast] at hfrom
  change id.toInt - ((a.limits.size : Int) - 1) ≤ u.id.toInt at hfrom
  omega

/-- **Handing a unit on posts** the unit itself, what it gives up and what it passes
over. -/
theorem posts_of_handOn (ha : a.Sound) (hs : s ∈ a) (hopen : s.taken = false)
    (hbefore : st.before = a) (hafter : st.after = a.handOn s)
    (hdelivered : st.delivered = {s.id}) : Posts a st := by
  have hoff := writtenOff_of_handOn ha.toPlaced hs hbefore hafter hdelivered
  have hpassed {x : Int32} : x ∈ st.passedOver ↔ a.lastTaken = none ∧ x ∈ a.units ∧
      x.toInt + (a.limits.size : Int) ≤ s.id.toInt :=
    mem_passedOver_of_handOn hbefore hdelivered
  have hmark {u : Slot} (hu : u ∈ a) : u.id ∈ st.writtenOff ↔ a.givesUp s.id u = true := by
    rw [hoff, mem_pick]
    constructor
    · rintro ⟨v, hv, hgives, hid⟩
      rw [← ha.eq_of_id_eq hv hu hid]
      exact hgives
    · intro hgives
      exact ⟨u, hu, hgives, rfl⟩
  exact
    { delivered := by
        intro id hid
        rw [hdelivered, Finset.mem_singleton] at hid
        exact ⟨s, hs, hid.symm, hopen⟩
      writtenOff := by
        intro id hid
        rw [hoff] at hid
        obtain ⟨u, hu, hgives, rfl⟩ := mem_pick.mp hid
        exact mem_waiting.mpr ⟨u, hu, expects_of_givesUp hgives, rfl⟩
      passedOver := by
        intro id hid
        obtain ⟨hlast, hin, -⟩ := hpassed.mp hid
        exact waiting_of_passedOver ha hlast hin
      apart := by
        intro id hid
        rw [hoff] at hid
        obtain ⟨u, hu, hgives, rfl⟩ := mem_pick.mp hid
        rw [hdelivered, Finset.mem_singleton]
        refine ⟨Int32.ne_of_lt (id_lt_of_givesUp hgives), fun hc => ?_⟩
        obtain ⟨hlast, -, hfar⟩ := hpassed.mp hc
        exact not_far_below_of_givesUp hgives hlast hfar
      completed := by
        rw [hafter, hdelivered, Finset.card_singleton]
        exact completed_handOn a s
      skipped := by rw [hafter, hoff, skipped_handOn ha.toPlaced hs]
      finished := by
        intro id hid
        rw [hafter, isFinished_handOn]
        rcases hid with hfin | hd | hover
        · exact Or.inl hfin
        · rw [hdelivered, Finset.mem_singleton] at hd
          exact Or.inr (by rw [hd]; exact Int32.le_refl _)
        · obtain ⟨-, -, hfar⟩ := hpassed.mp hover
          refine Or.inr ?_
          rw [Int32.le_iff_toInt_le]
          omega
      old_or_new := by
        intro t ht
        rw [hafter] at ht
        obtain ⟨u, hu, rfl⟩ := (mem_handOn ha.toPlaced hs).mp ht
        refine Or.inl ⟨u, hu, (id_settle a s.id u).symm, ?_⟩
        rw [taken_settle, id_settle, hdelivered, Finset.mem_singleton, hmark hu]
      waiting := by
        intro id hid
        obtain ⟨u, hu, hexp, rfl⟩ := mem_waiting.mp hid
        rw [hdelivered, Finset.mem_singleton, hmark hu, hpassed, hafter]
        by_cases heq : u.id = s.id
        · exact Or.inl heq
        by_cases hlt : s.id < u.id
        · exact Or.inr (Or.inr (Or.inr (waiting_handOn ha.toPlaced hs hu hexp hlt)))
        by_cases hgives : a.givesUp s.id u = true
        · exact Or.inr (Or.inl hgives)
        -- Older than the unit handed on and not given up: too far below.
        have hlt' : u.id < s.id := Int32.lt_of_le_of_ne (Int32.not_lt.mp hlt) heq
        obtain ⟨hlast, hfar⟩ := far_below_of_not_givesUp hexp hlt' hgives
        exact Or.inr (Or.inr (Or.inl ⟨hlast, mem_units.mpr ⟨u, hu, rfl⟩, hfar⟩)) }

end Posting

/-! ### Whole runs -/

namespace Books

variable {steps : List Step} {a : Assembly}

theorem empty_run (channel : Channel) (limits : Limits) : Books [] (empty channel limits) where
  units := by
    intro id hid
    obtain ⟨s, hs, -⟩ := mem_units.mp hid
    exact absurd hs (not_mem_empty channel limits s)
  present id hid := absurd hid (Finset.notMem_empty id)
  completed := rfl
  skipped := rfl
  once id := rfl
  taken s hs := absurd hs (not_mem_empty channel limits s)
  passed s hs := absurd hs (not_mem_empty channel limits s)
  finished id hid := by
    rcases hid with hid | hid
    · exact absurd hid (Finset.notMem_empty id)
    · exact absurd hid (Finset.notMem_empty id)
  held := Finset.Subset.refl _
  apart id hid := absurd hid (Finset.notMem_empty id)
  cover id hid := absurd hid (Finset.notMem_empty id)

theorem of_opening (h : Books steps a) (ha : a.Sound) {st : Step} (hbefore : st.before = a)
    (hdelivered : st.delivered = ∅) (hopen : Opening a st.after) :
    Books (steps ++ [st]) st.after :=
  (posts_of_opening ha.toPlaced hbefore hdelivered hopen).books h
    (h.toLocated.of_opening hopen)

theorem perform (h : Books steps a) (ha : a.Sound) (c : Call) :
    Books (steps ++ [a.step c]) (a.perform c).2 := by
  cases c with
  | receive p => exact h.of_opening ha rfl rfl (opening_receive ha p)
  | request now => exact h.of_opening ha rfl rfl (opening_request ha now)
  | take id =>
      rcases perform_take ha.toPlaced id with hp | ⟨s, hs, hid, hopen, -, hp⟩
      · have hdelivered : (a.step (.take id)).delivered = ∅ := by
          simp [step, hp, Step.delivered]
        have hopen : Opening a (a.step (.take id)).after := by
          show Opening a (a.perform (.take id)).2
          rw [hp]
          exact Opening.refl a
        exact h.of_opening ha rfl hdelivered hopen
      · have hafter : (a.step (.take id)).after = a.handOn s := by
          show (a.perform (.take id)).2 = _
          rw [hp]
        have hdelivered : (a.step (.take id)).delivered = {s.id} := by
          simp [step, hp, Step.delivered, hid]
        exact (posts_of_handOn ha hs hopen rfl hafter hdelivered).books h
          (located_handOn h.toLocated ha.toPlaced hs hafter)

/-- **The books are kept over every run.** -/
theorem run (channel : Channel) (limits : Limits) (calls : List Call) :
    Books ((empty channel limits).trace calls) ((empty channel limits).run calls) := by
  induction calls using List.reverseRecOn with
  | nil => exact empty_run channel limits
  | append_singleton calls c ih =>
      rw [trace_concat, run_concat]
      exact ih.perform ((sound_empty channel limits).run calls) c

/-- Every unit is on exactly one account. -/
theorem card_everHeld (h : Books steps a) :
    (delivered steps).card + (writtenOff steps).card + a.waiting.card +
      (leftBehind steps).card = (everHeld steps).card := by
  have hsplit : everHeld steps =
      ((delivered steps ∪ writtenOff steps) ∪ a.waiting) ∪ leftBehind steps := by
    ext id
    simp only [Finset.mem_union, leftBehind, Finset.mem_sdiff]
    constructor
    · intro hid
      by_cases hd : id ∈ delivered steps
      · exact Or.inl (Or.inl (Or.inl hd))
      · rcases h.cover id hid with hc | hw | hp | hwait
        · exact absurd hc hd
        · exact Or.inl (Or.inl (Or.inr hw))
        · exact Or.inr ⟨hp, hd⟩
        · exact Or.inl (Or.inr hwait)
    · rintro (((hd | hw) | hwait) | ⟨hp, -⟩)
      · exact (h.finished id (Or.inl hd)).1
      · exact h.held hw
      · exact h.waiting_subset_everHeld hwait
      · exact (h.finished id (Or.inr hp)).1
  have hoff : Disjoint (delivered steps) (writtenOff steps) :=
    Finset.disjoint_left.mpr fun id hd hw => (h.apart id hw).1 hd
  have hwait : Disjoint (delivered steps ∪ writtenOff steps) a.waiting := by
    rw [Finset.disjoint_left]
    intro id hin hid
    obtain ⟨hd, hw, -⟩ := h.not_mem_of_waiting hid
    exact (Finset.mem_union.mp hin).elim hd hw
  have hleft : Disjoint ((delivered steps ∪ writtenOff steps) ∪ a.waiting)
      (leftBehind steps) := by
    rw [Finset.disjoint_left]
    intro id hin hid
    obtain ⟨hp, hnot⟩ := Finset.mem_sdiff.mp hid
    rcases Finset.mem_union.mp hin with hin | hid
    · rcases Finset.mem_union.mp hin with hd | hw
      · exact hnot hd
      · exact (h.apart id hw).2 hp
    · exact (h.not_mem_of_waiting hid).2.2 hp
  rw [hsplit, Finset.card_union_of_disjoint hleft, Finset.card_union_of_disjoint hwait,
    Finset.card_union_of_disjoint hoff]

/-- A unit below one that was handed on is settled. -/
theorem settled_of_lt (h : Books steps a) {x id : Int32} (hid : id ∈ delivered steps)
    (hx : x ∈ everHeld steps) (hlt : x < id) :
    x ∈ delivered steps ∨ x ∈ writtenOff steps ∨ x ∈ leftBehind steps := by
  have hfin : a.isFinished x = true :=
    isFinished_of_le (Int32.le_of_lt hlt) (h.finished id (Or.inl hid)).2
  by_cases hd : x ∈ delivered steps
  · exact Or.inl hd
  rcases h.cover x hx with hc | hw | hp | hwait
  · exact absurd hc hd
  · exact Or.inr (Or.inl hw)
  · exact Or.inr (Or.inr (Finset.mem_sdiff.mpr ⟨hp, hd⟩))
  · obtain ⟨s, -, hexp, rfl⟩ := mem_waiting.mp hwait
    rw [(expects_iff.mp hexp).2] at hfin
    exact Bool.noConfusion hfin

end Books

/-- What was written off is never handed on. -/
theorem not_delivered_of_writtenOff (channel : Channel) (limits : Limits) {calls : List Call}
    {x : Int32} (hx : x ∈ writtenOff ((empty channel limits).trace calls)) (later : List Call) :
    x ∉ delivered ((empty channel limits).trace (calls ++ later)) := by
  refine ((Books.run channel limits (calls ++ later)).apart x ?_).1
  rw [trace_append, writtenOff, gather_append]
  exact Finset.mem_union_left _ hx

/--
**The accounts of an assembly balance, but for what is left behind.**  After any run:

* the units that ever had a slot are those handed on, those counted as skipped, those
  that wait and those left behind;
* the count of skipped units is the number of units written off;
* so the first three make up all of them exactly if nothing was left behind;
* once a unit was handed on, an older one that ever had a slot was handed on too, or
  was written off once and never will be handed on, exactly if it was not left behind.
-/
theorem accounts_balance (channel : Channel) (limits : Limits) (calls : List Call) :
    let steps := (empty channel limits).trace calls
    let a := (empty channel limits).run calls
    let expected := a.slots.countP fun o => o.any a.expects
    a.counts.completed + a.counts.skipped + expected + (leftBehind steps).card =
        (everHeld steps).card ∧
      a.counts.skipped = (writtenOff steps).card ∧
      (a.counts.completed + a.counts.skipped + expected = (everHeld steps).card ↔
        leftBehind steps = ∅) ∧
      ∀ id ∈ delivered steps, ∀ x ∈ everHeld steps, x < id →
        ((x ∈ delivered steps ∨ (timesWrittenOff steps x = 1 ∧
            ∀ later, x ∉ delivered ((empty channel limits).trace (calls ++ later)))) ↔
          x ∉ leftBehind steps) := by
  intro steps a expected
  have hbooks : Books steps a := Books.run channel limits calls
  have hsound : a.Sound := (sound_empty channel limits).run calls
  have hopen : a.waiting.card = expected := card_pick hsound.toPlaced a.expects
  have hsum := hbooks.card_everHeld
  rw [← hbooks.completed, ← hbooks.skipped, hopen] at hsum
  refine ⟨hsum, hbooks.skipped, ?_, ?_⟩
  · rw [← Finset.card_eq_zero]
    omega
  · intro id hid x hx hlt
    constructor
    · rintro (hd | ⟨honce, -⟩) hleft
      · exact (Finset.mem_sdiff.mp hleft).2 hd
      · have hoff : x ∈ writtenOff steps := by
          by_contra hnot
          rw [hbooks.once x, if_neg hnot] at honce
          exact absurd honce Nat.zero_ne_one
        exact (hbooks.apart x hoff).2 (Finset.mem_sdiff.mp hleft).1
    · intro hleft
      rcases hbooks.settled_of_lt hid hx hlt with hd | hw | hl
      · exact Or.inl hd
      · refine Or.inr ⟨?_, not_delivered_of_writtenOff channel limits hw⟩
        rw [hbooks.once x, if_pos hw]
      · exact absurd hl hleft

/-- A ring of two slots, in which unit 1 waits when unit 2 is handed on. -/
theorem accounts_balance_one_skipped :
    timesWrittenOff ((empty .video { size := 2 }).trace
        [.receive { id := 1, count := 2 }, .receive { id := 2 }, .take 2]) 1 = 1 ∧
      ∀ later, 1 ∉ delivered ((empty .video { size := 2 }).trace
        ([.receive { id := 1, count := 2 }, .receive { id := 2 }, .take 2] ++ later)) := by
  have hbalance := accounts_balance .video { size := 2 }
    [.receive { id := 1, count := 2 }, .receive { id := 2 }, .take 2]
  have hdelivered : 2 ∈ delivered ((empty .video { size := 2 }).trace
      [.receive { id := 1, count := 2 }, .receive { id := 2 }, .take 2]) := by decide +kernel
  have hsettled := (hbalance.2.2.2 2 hdelivered 1 (by decide +kernel) (by decide)).mpr
    (by decide +kernel)
  exact hsettled.resolve_left (by decide +kernel)

/-- **A unit can be left behind:** unit 0 waits a whole ring below unit 3, the first one
handed on.  It had a slot, and is neither handed on nor counted as skipped. -/
theorem accounts_lose_unit_far_below :
    let steps := (empty .video { size := 2 }).trace
      [.receive { id := 0, count := 2 }, .receive { id := 3 }, .take 3]
    let a := (empty .video { size := 2 }).run
      [.receive { id := 0, count := 2 }, .receive { id := 3 }, .take 3]
    a.counts.completed + a.counts.skipped + (a.slots.countP fun o => o.any a.expects) = 1 ∧
      (everHeld steps).card = 2 ∧ 3 ∈ delivered steps ∧ 0 ∈ everHeld steps ∧
      0 ∉ delivered steps ∧ timesWrittenOff steps 0 = 0 := by
  decide +kernel

end Assembly

end Framecast
