/-
Where the units of an assembly go.

Over a run every unit that ever had a slot ends up on one of four accounts: it was
handed on (`delivered`), it was given up and counted as skipped (`writtenOff`), it is
still waiting, or it was left behind.  The last happens once in a run.  The first unit
handed on, `id`, finishes every older one, but gives up only those less than a ring
below it; a slot further down, which a ring that is not full may hold, stays as it is
(`passedOver`).  It counts nowhere, and if it is whole it can still be handed on.

`Books` is the invariant: the accounts do not overlap and leave nothing out, and the
counters of the assembly are their sizes.  What a call adds to the accounts is read off
the units before and after it, not off the counters.  `Posts` says what it has to be
like for the books to be kept.
-/
import Mathlib.Data.Finset.Union
import Framecast.Proofs.Assembly.Run

namespace Framecast

namespace Assembly

/-! ### The accounts -/

/-- The units whose slot is not marked as taken. -/
def untaken (a : Assembly) : Finset Int32 :=
  a.pick fun s => !s.taken

namespace Step

/-- The unit a step handed on, if it did. -/
def delivered (st : Step) : Finset Int32 :=
  match st.call, st.answer with
  | .take id, .unit (some _) => {id}
  | _, _ => ∅

/-- The units a step gave up: they waited before it, their slots are gone or marked
after it, and they were not handed on. -/
def writtenOff (st : Step) : Finset Int32 :=
  (st.before.waiting \ st.after.untaken) \ st.delivered

/-- The units that the first unit handed on leaves a whole ring or more behind it. -/
def passedOver (st : Step) : Finset Int32 :=
  if st.before.lastTaken = none then
    st.delivered.biUnion fun id =>
      st.before.units.filter fun x => x.toInt + (st.before.limits.size : Int) ≤ id.toInt
  else ∅

end Step

/-- What the steps of a run have put on an account. -/
def gather (f : Step → Finset Int32) : List Step → Finset Int32
  | [] => ∅
  | st :: rest => f st ∪ gather f rest

/-- The units that ever had a slot. -/
def everHeld (steps : List Step) : Finset Int32 :=
  gather (fun st => st.after.units) steps

/-- The units that were handed on. -/
def delivered (steps : List Step) : Finset Int32 :=
  gather Step.delivered steps

/-- The units that were given up. -/
def writtenOff (steps : List Step) : Finset Int32 :=
  gather Step.writtenOff steps

/-- The units that were passed over. -/
def passedOver (steps : List Step) : Finset Int32 :=
  gather Step.passedOver steps

/-- How often a unit was given up. -/
def timesWrittenOff (steps : List Step) (id : Int32) : Nat :=
  steps.countP fun st => id ∈ st.writtenOff

/-- The units that were passed over and never handed on after all. -/
def leftBehind (steps : List Step) : Finset Int32 :=
  passedOver steps \ delivered steps

theorem gather_append (f : Step → Finset Int32) (steps later : List Step) :
    gather f (steps ++ later) = gather f steps ∪ gather f later := by
  induction steps with
  | nil =>
      show gather f later = ∅ ∪ gather f later
      rw [Finset.empty_union]
  | cons st rest ih =>
      show f st ∪ gather f (rest ++ later) = (f st ∪ gather f rest) ∪ gather f later
      rw [ih, Finset.union_assoc]

section Concat

variable (steps : List Step) (st : Step) (id : Int32)

theorem mem_gather_concat (f : Step → Finset Int32) :
    id ∈ gather f (steps ++ [st]) ↔ id ∈ gather f steps ∨ id ∈ f st := by
  rw [gather_append, Finset.mem_union]
  show _ ∨ id ∈ f st ∪ ∅ ↔ _
  rw [Finset.union_empty]

theorem mem_everHeld_concat :
    id ∈ everHeld (steps ++ [st]) ↔ id ∈ everHeld steps ∨ id ∈ st.after.units :=
  mem_gather_concat steps st id _

theorem mem_delivered_concat :
    id ∈ delivered (steps ++ [st]) ↔ id ∈ delivered steps ∨ id ∈ st.delivered :=
  mem_gather_concat steps st id _

theorem mem_writtenOff_concat :
    id ∈ writtenOff (steps ++ [st]) ↔ id ∈ writtenOff steps ∨ id ∈ st.writtenOff :=
  mem_gather_concat steps st id _

theorem mem_passedOver_concat :
    id ∈ passedOver (steps ++ [st]) ↔ id ∈ passedOver steps ∨ id ∈ st.passedOver :=
  mem_gather_concat steps st id _

end Concat

theorem mem_untaken {a : Assembly} {id : Int32} :
    id ∈ a.untaken ↔ ∃ s ∈ a, s.taken = false ∧ s.id = id := by
  simp [untaken, mem_pick]

theorem isFinished_iff {a : Assembly} {id : Int32} :
    a.isFinished id = true ↔ ∃ t, a.lastTaken = some t ∧ id ≤ t := by
  simp [isFinished, Option.any_eq_true]

theorem isFinished_of_le {a : Assembly} {x y : Int32} (hle : x ≤ y)
    (hy : a.isFinished y = true) : a.isFinished x = true := by
  obtain ⟨t, ht, hyt⟩ := isFinished_iff.mp hy
  exact isFinished_iff.mpr ⟨t, ht, Int32.le_trans hle hyt⟩

/-! ### The invariant -/

/-- Where the units are: one that ever had a slot has it still, or lost it to a younger
one. -/
structure Located (steps : List Step) (a : Assembly) : Prop where
  units : a.units ⊆ everHeld steps
  present : ∀ id ∈ everHeld steps, ∃ s ∈ a, a.position s.id = a.position id ∧ id ≤ s.id

/-- The accounts agree with the assembly. -/
structure Books (steps : List Step) (a : Assembly) : Prop extends Located steps a where
  completed : a.counts.completed = (delivered steps).card
  skipped : a.counts.skipped = (writtenOff steps).card
  /-- No unit is given up twice. -/
  once : ∀ id, timesWrittenOff steps id = if id ∈ writtenOff steps then 1 else 0
  /-- A slot is marked if its unit was handed on or given up. -/
  taken : ∀ s ∈ a, s.taken = true ↔ s.id ∈ delivered steps ∨ s.id ∈ writtenOff steps
  /-- A slot that is finished but not marked was passed over. -/
  passed : ∀ s ∈ a, s.taken = false → a.isFinished s.id = true → s.id ∈ passedOver steps
  finished : ∀ id, id ∈ delivered steps ∨ id ∈ passedOver steps →
    id ∈ everHeld steps ∧ a.isFinished id = true
  held : writtenOff steps ⊆ everHeld steps
  apart : ∀ id ∈ writtenOff steps, id ∉ delivered steps ∧ id ∉ passedOver steps
  /-- Nothing is left out. -/
  cover : ∀ id ∈ everHeld steps,
    id ∈ delivered steps ∨ id ∈ writtenOff steps ∨ id ∈ passedOver steps ∨ id ∈ a.waiting

namespace Located

variable {steps : List Step} {a : Assembly}

/-- A unit that is younger than what stands at its position never had a slot. -/
theorem not_mem_everHeld (h : Located steps a) {id : Int32}
    (hyoung : ∀ s ∈ a, a.position s.id = a.position id → s.id < id) :
    id ∉ everHeld steps := by
  intro hin
  obtain ⟨s, hs, hpos, hle⟩ := h.present id hin
  exact Int32.lt_irrefl (Int32.lt_of_lt_of_le (hyoung s hs hpos) hle)

theorem of_opening (h : Located steps a) {st : Step} (hopen : Opening a st.after) :
    Located (steps ++ [st]) st.after where
  units := by
    intro id hid
    exact (mem_everHeld_concat steps st id).mpr (Or.inr hid)
  present := by
    intro id hid
    rcases (mem_everHeld_concat steps st id).mp hid with hold | hnew
    · exact hopen.exists_ge (h.present id hold)
    · obtain ⟨t, ht, rfl⟩ := mem_units.mp hnew
      exact ⟨t, ht, rfl, Int32.le_refl _⟩

end Located

namespace Books

variable {steps : List Step} {a : Assembly}

theorem not_mem_of_not_taken (h : Books steps a) {s : Slot} (hs : s ∈ a)
    (hopen : s.taken = false) : s.id ∉ delivered steps ∧ s.id ∉ writtenOff steps := by
  have hnot : ¬ (s.id ∈ delivered steps ∨ s.id ∈ writtenOff steps) := by
    rw [← h.taken s hs, hopen]
    exact Bool.noConfusion
  exact ⟨fun hd => hnot (Or.inl hd), fun hw => hnot (Or.inr hw)⟩

theorem not_mem_of_waiting (h : Books steps a) {id : Int32} (hid : id ∈ a.waiting) :
    id ∉ delivered steps ∧ id ∉ writtenOff steps ∧ id ∉ passedOver steps := by
  obtain ⟨s, hs, hexp, rfl⟩ := mem_waiting.mp hid
  obtain ⟨hopen, hfin⟩ := expects_iff.mp hexp
  obtain ⟨hd, hw⟩ := h.not_mem_of_not_taken hs hopen
  refine ⟨hd, hw, fun hp => ?_⟩
  have := (h.finished s.id (Or.inr hp)).2
  rw [hfin] at this
  exact Bool.noConfusion this

theorem waiting_subset_everHeld (h : Books steps a) : a.waiting ⊆ everHeld steps :=
  fun _ hid => h.units (a.waiting_subset_units hid)

/-- Units that wait can be written off: none of them was before. -/
theorem timesWrittenOff_concat (h : Books steps a) {st : Step}
    (hst : st.writtenOff ⊆ a.waiting) (id : Int32) :
    timesWrittenOff (steps ++ [st]) id = if id ∈ writtenOff (steps ++ [st]) then 1 else 0 := by
  have hsum : timesWrittenOff (steps ++ [st]) id =
      timesWrittenOff steps id + if id ∈ st.writtenOff then 1 else 0 := by
    simp [timesWrittenOff, List.countP_append, List.countP_singleton]
  have hmem := mem_writtenOff_concat steps st id
  rw [hsum, h.once id]
  by_cases hold : id ∈ writtenOff steps
  · have hnew : id ∉ st.writtenOff := fun hc => (h.not_mem_of_waiting (hst hc)).2.1 hold
    rw [if_pos hold, if_neg hnew, if_pos (hmem.mpr (Or.inl hold))]
  · by_cases hnew : id ∈ st.writtenOff
    · rw [if_neg hold, if_pos hnew, if_pos (hmem.mpr (Or.inr hnew))]
    · have hnone : ¬ id ∈ writtenOff (steps ++ [st]) := fun hc => (hmem.mp hc).elim hold hnew
      rw [if_neg hold, if_neg hnew, if_neg hnone]

theorem card_writtenOff_concat (h : Books steps a) {st : Step}
    (hst : st.writtenOff ⊆ a.waiting) :
    (writtenOff (steps ++ [st])).card = (writtenOff steps).card + st.writtenOff.card := by
  have hunion : writtenOff (steps ++ [st]) = writtenOff steps ∪ st.writtenOff := by
    ext id
    rw [mem_writtenOff_concat, Finset.mem_union]
  rw [hunion]
  refine Finset.card_union_of_disjoint (Finset.disjoint_left.mpr fun id hold hnew => ?_)
  exact (h.not_mem_of_waiting (hst hnew)).2.1 hold

end Books

/-! ### What a call posts -/

/-- What a step puts on the accounts of the assembly it comes to. -/
structure Posts (a : Assembly) (st : Step) : Prop where
  /-- What is handed on stood in a slot that was not marked. -/
  delivered : ∀ id ∈ st.delivered, ∃ s ∈ a, s.id = id ∧ s.taken = false
  writtenOff : st.writtenOff ⊆ a.waiting
  passedOver : st.passedOver ⊆ a.waiting
  apart : ∀ id ∈ st.writtenOff, id ∉ st.delivered ∧ id ∉ st.passedOver
  completed : st.after.counts.completed = a.counts.completed + st.delivered.card
  skipped : st.after.counts.skipped = a.counts.skipped + st.writtenOff.card
  finished : ∀ id, a.isFinished id = true ∨ id ∈ st.delivered ∨ id ∈ st.passedOver →
    st.after.isFinished id = true
  /-- A slot is marked by the accounts alone, and a new one is not. -/
  old_or_new : ∀ t ∈ st.after,
    (∃ s ∈ a, s.id = t.id ∧ (t.taken = true ↔
      s.taken = true ∨ t.id ∈ st.delivered ∨ t.id ∈ st.writtenOff)) ∨
    (t.taken = false ∧ st.after.isFinished t.id = false ∧
      ∀ s ∈ a, a.position s.id = a.position t.id → s.id < t.id)
  /-- What waited is posted or waits for more. -/
  waiting : ∀ id ∈ a.waiting,
    id ∈ st.delivered ∨ id ∈ st.writtenOff ∨ id ∈ st.passedOver ∨ id ∈ st.after.waiting

namespace Posts

variable {steps : List Step} {a : Assembly} {st : Step}

theorem not_mem_of_delivered (hp : Posts a st) (h : Books steps a) {id : Int32}
    (hid : id ∈ st.delivered) :
    id ∈ a.units ∧ id ∉ Assembly.delivered steps ∧ id ∉ Assembly.writtenOff steps := by
  obtain ⟨s, hs, rfl, hopen⟩ := hp.delivered id hid
  exact ⟨mem_units.mpr ⟨s, hs, rfl⟩, h.not_mem_of_not_taken hs hopen⟩

theorem card_delivered_concat (hp : Posts a st) (h : Books steps a) :
    (Assembly.delivered (steps ++ [st])).card =
      (Assembly.delivered steps).card + st.delivered.card := by
  have hunion : Assembly.delivered (steps ++ [st]) =
      Assembly.delivered steps ∪ st.delivered := by
    ext id
    rw [mem_delivered_concat, Finset.mem_union]
  rw [hunion]
  refine Finset.card_union_of_disjoint (Finset.disjoint_left.mpr fun id hold hnew => ?_)
  exact (hp.not_mem_of_delivered h hnew).2.1 hold

/-- A unit that never had a slot is on no account afterwards. -/
theorem not_mem_of_not_mem_everHeld (hp : Posts a st) (h : Books steps a) {id : Int32}
    (hnever : id ∉ everHeld steps) :
    id ∉ Assembly.delivered (steps ++ [st]) ∧ id ∉ Assembly.writtenOff (steps ++ [st]) := by
  rw [mem_delivered_concat, mem_writtenOff_concat]
  refine ⟨?_, ?_⟩
  · rintro (hd | hd)
    · exact hnever (h.finished id (Or.inl hd)).1
    · exact hnever (h.units (hp.not_mem_of_delivered h hd).1)
  · rintro (hw | hw)
    · exact hnever (h.held hw)
    · exact hnever (h.waiting_subset_everHeld (hp.writtenOff hw))

theorem taken_iff (hp : Posts a st) (h : Books steps a) {t : Slot} (ht : t ∈ st.after) :
    t.taken = true ↔ t.id ∈ Assembly.delivered (steps ++ [st]) ∨
      t.id ∈ Assembly.writtenOff (steps ++ [st]) := by
  rcases hp.old_or_new t ht with ⟨s, hs, hid, hmark⟩ | ⟨htaken, -, hyoung⟩
  · rw [hmark, h.taken s hs, hid, mem_delivered_concat, mem_writtenOff_concat]
    constructor
    · rintro ((hd | hw) | hd | hw)
      · exact Or.inl (Or.inl hd)
      · exact Or.inr (Or.inl hw)
      · exact Or.inl (Or.inr hd)
      · exact Or.inr (Or.inr hw)
    · rintro ((hd | hd) | hw | hw)
      · exact Or.inl (Or.inl hd)
      · exact Or.inr (Or.inl hd)
      · exact Or.inl (Or.inr hw)
      · exact Or.inr (Or.inr hw)
  · obtain ⟨hd, hw⟩ := hp.not_mem_of_not_mem_everHeld h (h.not_mem_everHeld hyoung)
    rw [htaken]
    constructor
    · intro hc
      cases hc
    · rintro (hc | hc)
      · exact absurd hc hd
      · exact absurd hc hw

/-- A slot that is finished and not marked was passed over, now or before. -/
theorem passedOver_of_finished (hp : Posts a st) (h : Books steps a) {t : Slot}
    (ht : t ∈ st.after) (htaken : t.taken = false) (hfin : st.after.isFinished t.id = true) :
    t.id ∈ Assembly.passedOver (steps ++ [st]) := by
  rw [mem_passedOver_concat]
  rcases hp.old_or_new t ht with ⟨s, hs, hid, hmark⟩ | ⟨-, hnot, -⟩
  · have hunmarked : ¬ (s.taken = true ∨ t.id ∈ st.delivered ∨ t.id ∈ st.writtenOff) := by
      rw [← hmark, htaken]
      exact Bool.noConfusion
    have hopen : s.taken = false := by
      by_contra hc
      exact hunmarked (Or.inl (by simpa using hc))
    cases hold : a.isFinished s.id with
    | true =>
        rw [← hid]
        exact Or.inl (h.passed s hs hopen hold)
    | false =>
        have hwait : t.id ∈ a.waiting :=
          mem_waiting.mpr ⟨s, hs, expects_iff.mpr ⟨hopen, hold⟩, hid⟩
        rcases hp.waiting t.id hwait with hd | hw | hover | hlater
        · exact absurd (Or.inr (Or.inl hd)) hunmarked
        · exact absurd (Or.inr (Or.inr hw)) hunmarked
        · exact Or.inr hover
        · obtain ⟨u, -, hexp, huid⟩ := mem_waiting.mp hlater
          rw [← huid, (expects_iff.mp hexp).2] at hfin
          exact Bool.noConfusion hfin
  · rw [hnot] at hfin
    exact Bool.noConfusion hfin

/-- **Nothing is left out:** what ever had a slot is on an account or waits. -/
theorem cover (hp : Posts a st) (h : Books steps a) {id : Int32}
    (hid : id ∈ everHeld (steps ++ [st])) :
    id ∈ Assembly.delivered (steps ++ [st]) ∨ id ∈ Assembly.writtenOff (steps ++ [st]) ∨
      id ∈ Assembly.passedOver (steps ++ [st]) ∨ id ∈ st.after.waiting := by
  rw [mem_delivered_concat, mem_writtenOff_concat, mem_passedOver_concat]
  by_cases hold : id ∈ everHeld steps
  · rcases h.cover id hold with hd | hw | hover | hwait
    · exact Or.inl (Or.inl hd)
    · exact Or.inr (Or.inl (Or.inl hw))
    · exact Or.inr (Or.inr (Or.inl (Or.inl hover)))
    · rcases hp.waiting id hwait with hd | hw | hover | hlater
      · exact Or.inl (Or.inr hd)
      · exact Or.inr (Or.inl (Or.inr hw))
      · exact Or.inr (Or.inr (Or.inl (Or.inr hover)))
      · exact Or.inr (Or.inr (Or.inr hlater))
  · have hnew := ((mem_everHeld_concat steps st id).mp hid).resolve_left hold
    obtain ⟨t, ht, rfl⟩ := mem_units.mp hnew
    rcases hp.old_or_new t ht with ⟨s, hs, hsid, -⟩ | ⟨htaken, hfin, -⟩
    · exact absurd (h.units (mem_units.mpr ⟨s, hs, hsid⟩)) hold
    · exact Or.inr (Or.inr (Or.inr
        (mem_waiting.mpr ⟨t, ht, expects_iff.mpr ⟨htaken, hfin⟩, rfl⟩)))

/-- **A step that posts keeps the books.** -/
theorem books (hp : Posts a st) (h : Books steps a) (hlocated : Located (steps ++ [st]) st.after) :
    Books (steps ++ [st]) st.after where
  toLocated := hlocated
  completed := by rw [hp.completed, hp.card_delivered_concat h, h.completed]
  skipped := by rw [hp.skipped, h.card_writtenOff_concat hp.writtenOff, h.skipped]
  once := h.timesWrittenOff_concat hp.writtenOff
  taken _ ht := hp.taken_iff h ht
  passed _ ht htaken hfin := hp.passedOver_of_finished h ht htaken hfin
  finished := by
    intro id hid
    rw [mem_delivered_concat, mem_passedOver_concat] at hid
    rw [mem_everHeld_concat]
    rcases hid with (hd | hd) | hover | hover
    · obtain ⟨hin, hfin⟩ := h.finished id (Or.inl hd)
      exact ⟨Or.inl hin, hp.finished id (Or.inl hfin)⟩
    · exact ⟨Or.inl (h.units (hp.not_mem_of_delivered h hd).1),
        hp.finished id (Or.inr (Or.inl hd))⟩
    · obtain ⟨hin, hfin⟩ := h.finished id (Or.inr hover)
      exact ⟨Or.inl hin, hp.finished id (Or.inl hfin)⟩
    · exact ⟨Or.inl (h.waiting_subset_everHeld (hp.passedOver hover)),
        hp.finished id (Or.inr (Or.inr hover))⟩
  held := by
    intro id hid
    rw [mem_everHeld_concat]
    rcases (mem_writtenOff_concat steps st id).mp hid with hw | hw
    · exact Or.inl (h.held hw)
    · exact Or.inl (h.waiting_subset_everHeld (hp.writtenOff hw))
  apart := by
    intro id hid
    rw [mem_delivered_concat, mem_passedOver_concat, not_or, not_or]
    rcases (mem_writtenOff_concat steps st id).mp hid with hw | hw
    · obtain ⟨hd, hover⟩ := h.apart id hw
      refine ⟨⟨hd, fun hc => ?_⟩, hover, fun hc => ?_⟩
      · exact (hp.not_mem_of_delivered h hc).2.2 hw
      · exact (h.not_mem_of_waiting (hp.passedOver hc)).2.1 hw
    · obtain ⟨hd, -, hover⟩ := h.not_mem_of_waiting (hp.writtenOff hw)
      obtain ⟨hd', hover'⟩ := hp.apart id hw
      exact ⟨⟨hd, hd'⟩, hover, hover'⟩
  cover _ hid := hp.cover h hid

end Posts

/-! ### What openings post -/

section OfOpening

variable {a : Assembly} {st : Step}

/-- What an opening writes off is what waited and lost its slot. -/
theorem writtenOff_of_opening (ha : a.Placed) (hbefore : st.before = a)
    (hdelivered : st.delivered = ∅) (hopen : Opening a st.after) :
    st.writtenOff = a.waiting \ st.after.units := by
  ext id
  rw [Step.writtenOff, hdelivered, hbefore, Finset.sdiff_empty, Finset.mem_sdiff,
    Finset.mem_sdiff]
  refine and_congr_right fun hw => not_congr ?_
  obtain ⟨s, hs, hexp, rfl⟩ := mem_waiting.mp hw
  rw [mem_untaken, mem_units]
  constructor
  · rintro ⟨t, ht, -, hid⟩
    exact ⟨t, ht, hid⟩
  · rintro ⟨t, ht, hid⟩
    refine ⟨t, ht, ?_, hid⟩
    rw [hopen.taken_eq ha hs ht hid.symm]
    exact (expects_iff.mp hexp).1

/-- **An opening writes off what loses its slot while it waits,** and posts nothing
else. -/
theorem posts_of_opening (ha : a.Placed) (hbefore : st.before = a)
    (hdelivered : st.delivered = ∅) (hopen : Opening a st.after) : Posts a st := by
  have hoff := writtenOff_of_opening ha hbefore hdelivered hopen
  have hpassedOver : st.passedOver = ∅ := by
    rw [Step.passedOver, hdelivered]
    split <;> rfl
  have hnone (id : Int32) : id ∉ st.delivered := by
    rw [hdelivered]
    exact Finset.notMem_empty id
  have hover (id : Int32) : id ∉ st.passedOver := by
    rw [hpassedOver]
    exact Finset.notMem_empty id
  exact
    { delivered := fun id hid => absurd hid (hnone id)
      writtenOff := by
        rw [hoff]
        exact Finset.sdiff_subset
      passedOver := fun id hid => absurd hid (hover id)
      apart := fun id _ => ⟨hnone id, hover id⟩
      completed := by
        rw [hopen.completed, hdelivered]
        rfl
      skipped := by rw [hopen.skipped, hoff]
      finished := by
        rintro id (hfin | hd | hp)
        · rw [hopen.isFinished_eq]
          exact hfin
        · exact absurd hd (hnone id)
        · exact absurd hp (hover id)
      old_or_new := by
        intro t ht
        rcases hopen.old_or_new t ht with ⟨s, hs, hid, htaken⟩ | ⟨htaken, hfin, hyoung⟩
        · have hnot : t.id ∉ st.writtenOff := by
            rw [hoff]
            intro hc
            exact (Finset.mem_sdiff.mp hc).2 (mem_units.mpr ⟨t, ht, rfl⟩)
          refine Or.inl ⟨s, hs, hid, ?_⟩
          simp [htaken, hnone, hnot]
        · refine Or.inr ⟨htaken, ?_, hyoung⟩
          rw [hopen.isFinished_eq]
          exact hfin
      waiting := by
        intro id hwait
        by_cases hin : id ∈ st.after.units
        · have hunit := a.waiting_subset_units hwait
          exact Or.inr (Or.inr (Or.inr ((hopen.mem_waiting_iff ha hunit hin).mpr hwait)))
        · refine Or.inr (Or.inl ?_)
          rw [hoff]
          exact Finset.mem_sdiff.mpr ⟨hwait, hin⟩ }

end OfOpening

end Assembly

end Framecast
