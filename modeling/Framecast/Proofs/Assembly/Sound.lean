/-
What is true of an assembly at all times.

`Sound` is the invariant: every slot stands at its position, every slot is sound, no
slot belongs to a unit newer than the newest one seen, and a slot is marked as taken
only if its unit is finished.

For each operation there is one lemma that says everything it can do.  A packet is
either refused (`Refuses`), and then at most the count of duplicates changes, or it is
put into a slot it fits (`TakesIn`): the one of its unit, or a new one that takes the
place of an older unit.  Handing a unit on marks slots and changes nothing else in them.
-/
import Framecast.Proofs.Assembly.Ring

namespace Framecast

namespace Assembly

/-- The invariant of an assembly. -/
structure Sound (a : Assembly) : Prop extends Placed a where
  slot : ∀ s ∈ a, s.Sound
  /-- No slot belongs to a unit newer than the newest one seen. -/
  newest : ∀ s ∈ a, ∃ n, a.newest = some n ∧ s.id ≤ n
  /-- Only finished units are marked as taken. -/
  finished : ∀ s ∈ a, s.taken = true → a.isFinished s.id = true

theorem sound_empty (channel : Channel) (limits : Limits) : (empty channel limits).Sound where
  toPlaced := placed_empty channel limits
  slot s hs := absurd hs (not_mem_empty channel limits s)
  newest s hs := absurd hs (not_mem_empty channel limits s)
  finished s hs := absurd hs (not_mem_empty channel limits s)

/-- Before anything was handed on, no unit is finished. -/
theorem isFinished_of_lastTaken {a : Assembly} (h : a.lastTaken = none) (id : Int32) :
    a.isFinished id = false := by
  rw [isFinished, h]
  rfl

/-- What stands in the ring for a unit that is not finished was not taken. -/
theorem Sound.not_taken {a : Assembly} (h : a.Sound) {s : Slot} (hs : s ∈ a)
    (hfin : a.isFinished s.id = false) : s.taken = false := by
  by_contra htaken
  have htrue := h.finished s hs (by simpa using htaken)
  rw [hfin] at htrue
  exact Bool.noConfusion htrue

/-! ### Counting changes nothing else -/

/-- Whether the unit of a slot may still be handed on as things go: it was not given up
and no newer one was handed on. -/
def expects (a : Assembly) (s : Slot) : Bool :=
  !s.taken && !a.isFinished s.id

theorem vacate_eq (a : Assembly) (id : Int32) :
    a.vacate id = a.countSkipped (if (a.slotAt? id).any a.expects then 1 else 0) := by
  unfold vacate expects
  cases a.slotAt? id with
  | none => rfl
  | some s =>
      by_cases hexp : (s.taken || a.isFinished s.id) = true
      · have hnot : (!s.taken && !a.isFinished s.id) = false := by
          rw [← Bool.not_or, hexp]
          rfl
        simp only [if_pos hexp, Option.any_some, hnot]
        rfl
      · have hnot : (!s.taken && !a.isFinished s.id) = true := by
          rw [← Bool.not_or]
          simpa using hexp
        simp only [if_neg hexp, Option.any_some, hnot, if_true]

/-- Makes room for a unit, unless it has a slot. -/
def makeRoom (a : Assembly) (id : Int32) : Assembly :=
  if (a.slotOf? id).isSome then a else a.vacate id

/-- How many units making room gives up. -/
def roomCost (a : Assembly) (id : Int32) : Nat :=
  if (a.slotOf? id).isSome then 0 else if (a.slotAt? id).any a.expects then 1 else 0

theorem makeRoom_eq (a : Assembly) (id : Int32) :
    a.makeRoom id = a.countSkipped (a.roomCost id) := by
  unfold makeRoom roomCost
  split
  · rfl
  · rw [vacate_eq]

theorem Placed.countSkipped {a : Assembly} (h : a.Placed) (n : Nat) : (a.countSkipped n).Placed :=
  ⟨h.size_pos, h.size_slots, h.placed⟩

theorem Sound.countDuplicate {a : Assembly} (h : a.Sound) : a.countDuplicate.Sound :=
  ⟨⟨h.size_pos, h.size_slots, h.placed⟩, h.slot, h.newest, h.finished⟩

/-! ### Taking a fragment in -/

/-- The slot `s` takes the packet in.  Either it stands in the ring, or it is new and
takes the place of an older unit, if of any. -/
structure TakesIn (a : Assembly) (p : Packet) (s : Slot) : Prop where
  admits : a.admits p = true
  unfinished : a.isFinished p.id = false
  id_eq : s.id = p.id
  place : s ∈ a ∨
    (s = { id := p.id } ∧ ∀ t ∈ a, a.position t.id = a.position p.id → t.id < p.id)
  fits : s.Fits p

/-- The assembly after a packet was put into the slot `s`. -/
def keepIn (a : Assembly) (p : Packet) (s : Slot) : Assembly :=
  ((a.makeRoom p.id).put (s.accept p)).noteKept p

/-- What is said of a packet that was put into the slot `s`. -/
def keptVerdict (p : Packet) (s : Slot) : Verdict :=
  if (s.accept p).isComplete then .completed else .stored

theorem index_lt_of_admits {a : Assembly} {p : Packet} (h : a.admits p = true) :
    p.index.toNat < p.count.toNat := by
  simp only [admits, Bool.and_eq_true, decide_eq_true_eq] at h
  exact UInt16.lt_iff_toNat_lt.mp h.1.1.2

theorem deliver_of_fits {s : Slot} {p : Packet} (a : Assembly) (hs : s.Sound)
    (hf : s.Fits p) :
    a.deliver s p = (keptVerdict p s, (a.put (s.accept p)).noteKept p) := by
  obtain ⟨-, -, hsame⟩ := hf.sizing hs
  have hcount : ¬ (s.count ≠ 0 ∧ s.count ≠ p.count.toNat) := by
    rintro ⟨hzero, hne⟩
    exact hne (hf.count.resolve_left hzero)
  have hempty : ¬ (if s.count = 0 then s.sized p.count.toNat else s).holds
      p.index.toNat = true := by
    rw [Slot.holds_eq, hsame, ← Slot.holds_eq, ← Slot.mem_filled]
    exact hf.empty
  unfold deliver
  rw [if_neg hcount]
  simp only [if_neg hempty]
  rfl

theorem deliver_of_not_fits {s : Slot} {p : Packet} (a : Assembly) (hs : s.Sound)
    (hindex : p.index.toNat < p.count.toNat) (hf : ¬ s.Fits p) :
    a.deliver s p = (.invalid, a) ∨ a.deliver s p = (.duplicate, a.countDuplicate) := by
  unfold deliver
  by_cases hcount : s.count ≠ 0 ∧ s.count ≠ p.count.toNat
  · exact Or.inl (if_pos hcount)
  · right
    have hc : s.count = 0 ∨ s.count = p.count.toNat := by omega
    obtain ⟨-, -, hsame⟩ := hs.sizing (Nat.zero_lt_of_lt hindex) hc
    have hholds : (if s.count = 0 then s.sized p.count.toNat else s).holds
        p.index.toNat = true := by
      rw [Slot.holds_eq, hsame, ← Slot.holds_eq, ← Slot.mem_filled]
      by_contra hempty
      exact hf ⟨hc, hindex, hempty⟩
    rw [if_neg hcount]
    simp only [if_pos hholds]

theorem receive_of_takesIn {a : Assembly} {p : Packet} {s : Slot} (h : a.Sound)
    (ht : a.TakesIn p s) : a.receive p = (keptVerdict p s, a.keepIn p s) := by
  have hadmits : ¬ ¬ a.admits p = true := fun hc => hc ht.admits
  have hfin : ¬ a.isFinished p.id = true := by rw [ht.unfinished]; exact Bool.noConfusion
  unfold receive keepIn
  rw [if_neg hadmits, if_neg hfin]
  rcases ht.place with hs | ⟨rfl, hold⟩
  · have hat : a.slotAt? p.id = some s := h.slotAt?_eq_some.mpr ⟨hs, by rw [ht.id_eq]⟩
    have hof : a.slotOf? p.id = some s := h.slotOf?_eq_some.mpr ⟨hs, ht.id_eq⟩
    have hlt : ¬ p.id < s.id := by rw [ht.id_eq]; exact Int32.lt_irrefl
    simp only [hat, if_neg hlt, if_pos ht.id_eq, makeRoom, hof, Option.isSome_some, if_true]
    exact deliver_of_fits a (h.slot s hs) ht.fits
  · have hof : a.slotOf? p.id = none := by
      refine h.slotOf?_eq_none.mpr fun t hmem hid => ?_
      have := hold t hmem (by rw [hid])
      rw [hid] at this
      exact Int32.lt_irrefl this
    have hroom : a.makeRoom p.id = a.vacate p.id := by
      rw [makeRoom, hof]
      rfl
    rw [hroom]
    cases hat : a.slotAt? p.id with
    | none =>
        have hvacate : a.vacate p.id = a := by rw [vacate, hat]
        rw [hvacate]
        exact deliver_of_fits a (Slot.sound_blank p.id) ht.fits
    | some t =>
        obtain ⟨hmem, hpos⟩ := h.slotAt?_eq_some.mp hat
        have hlt := hold t hmem hpos
        have hnot : ¬ p.id < t.id := fun hc => Int32.lt_irrefl (Int32.lt_trans hc hlt)
        have hne : ¬ t.id = p.id := fun hc => by rw [hc] at hlt; exact Int32.lt_irrefl hlt
        simp only [if_neg hnot, if_neg hne]
        exact deliver_of_fits _ (Slot.sound_blank p.id) ht.fits

/-- What is said of a packet that is not put anywhere. -/
def Refusal (v : Verdict) : Prop :=
  v = .invalid ∨ v = .stale ∨ v = .duplicate

theorem Refusal.ne_completed {v : Verdict} (h : Refusal v) : v ≠ .completed := by
  rcases h with rfl | rfl | rfl
  · exact Verdict.noConfusion
  · exact Verdict.noConfusion
  · exact Verdict.noConfusion

/-- The packet is put nowhere; at most it counts as a duplicate. -/
structure Refuses (a : Assembly) (p : Packet) : Prop where
  verdict : Refusal (a.receive p).1
  rest : (a.receive p).2 = a ∨ (a.receive p).2 = a.countDuplicate

namespace Refuses

variable {a : Assembly} {p : Packet}

theorem of_same {v : Verdict} (hv : Refusal v) (hr : a.receive p = (v, a)) : a.Refuses p :=
  ⟨by rw [hr]; exact hv, Or.inl (by rw [hr])⟩

theorem of_duplicate {v : Verdict} (hv : Refusal v) (hr : a.receive p = (v, a.countDuplicate)) :
    a.Refuses p :=
  ⟨by rw [hr]; exact hv, Or.inr (by rw [hr])⟩

theorem mem_iff (h : a.Refuses p) {t : Slot} : t ∈ (a.receive p).2 ↔ t ∈ a := by
  rcases h.rest with hr | hr
  · rw [hr]
  · rw [hr]
    exact Iff.rfl

theorem limits_eq (h : a.Refuses p) :
    (a.receive p).2.limits = a.limits ∧ (a.receive p).2.channel = a.channel := by
  rcases h.rest with hr | hr
  · rw [hr]
    exact ⟨rfl, rfl⟩
  · rw [hr]
    exact ⟨rfl, rfl⟩

theorem position_eq (h : a.Refuses p) (id : Int32) :
    (a.receive p).2.position id = a.position id := by
  rw [position, position, h.limits_eq.1]

end Refuses

/-- **A packet is refused or put into a slot it fits; there is no third way.** -/
theorem receive_cases {a : Assembly} (h : a.Sound) (p : Packet) :
    a.Refuses p ∨ ∃ s, a.TakesIn p s := by
  by_cases hkept : ∃ s, a.TakesIn p s
  · exact Or.inr hkept
  left
  by_cases hadmits : a.admits p = true
  swap
  · exact .of_same (Or.inl rfl) (by rw [receive, if_pos hadmits])
  have hin : ¬ ¬ a.admits p = true := fun hc => hc hadmits
  by_cases hfin : a.isFinished p.id = true
  · have hr : a.receive p = (.stale, if p.resent then a.countDuplicate else a) := by
      rw [receive, if_neg hin, if_pos hfin]
    cases hresent : p.resent with
    | false => exact .of_same (Or.inr (Or.inl rfl)) (by rw [hr, hresent]; rfl)
    | true => exact .of_duplicate (Or.inr (Or.inl rfl)) (by rw [hr, hresent]; rfl)
  have hindex := index_lt_of_admits hadmits
  have hunfinished : a.isFinished p.id = false := by simpa using hfin
  -- A new slot always takes the packet in, so it is a slot of the ring that does not.
  have hblank : ¬ ∀ t ∈ a, a.position t.id = a.position p.id → t.id < p.id := by
    intro hold
    refine hkept ⟨{ id := p.id }, hadmits, hunfinished, rfl, Or.inr ⟨rfl, hold⟩, ?_⟩
    exact ⟨Or.inl rfl, hindex, Finset.notMem_empty _⟩
  cases hat : a.slotAt? p.id with
  | none =>
      have hnone := h.slotAt?_eq_none.mp hat
      exact absurd (fun t hmem hpos => absurd hpos (hnone t hmem)) hblank
  | some s =>
      obtain ⟨hs, hpos⟩ := h.slotAt?_eq_some.mp hat
      by_cases hlt : p.id < s.id
      · refine .of_same (Or.inr (Or.inl rfl)) ?_
        simp only [receive, if_neg hin, if_neg hfin, hat, if_pos hlt]
      by_cases hid : s.id = p.id
      · have hr : a.receive p = a.deliver s p := by
          simp only [receive, if_neg hin, if_neg hfin, hat, if_neg hlt, if_pos hid]
        have hf : ¬ s.Fits p := fun hf =>
          hkept ⟨s, hadmits, hunfinished, hid, Or.inl hs, hf⟩
        rcases deliver_of_not_fits a (h.slot s hs) hindex hf with hd | hd
        · exact .of_same (Or.inl rfl) (hr.trans hd)
        · exact .of_duplicate (Or.inr (Or.inr rfl)) (hr.trans hd)
      · exfalso
        refine hblank fun t hmem htpos => ?_
        have hts : t = s := h.eq_of_position_eq hmem hs (htpos.trans hpos.symm)
        rw [hts]
        exact Int32.lt_of_le_of_ne (Int32.not_lt.mp hlt) hid

namespace Refuses

variable {a : Assembly} {p : Packet}

/-- What is refused is not taken in as well. -/
theorem not_takesIn (h : a.Refuses p) (ha : a.Sound) (s : Slot) : ¬ a.TakesIn p s := by
  intro ht
  have hverdict := h.verdict
  rw [receive_of_takesIn ha ht, keptVerdict] at hverdict
  split at hverdict
  · exact hverdict.ne_completed rfl
  · simp [Refusal] at hverdict

/-- A packet that could belong to a unit not finished yet is refused because of what it
finds: a younger unit at its position, or a slot of its own unit that it does not fit. -/
theorem exists_slot (h : a.Refuses p) (ha : a.Sound) (hadmits : a.admits p = true)
    (hfin : a.isFinished p.id = false) :
    ∃ s ∈ a, a.position s.id = a.position p.id ∧
      (p.id < s.id ∨ (s.id = p.id ∧ ¬ s.Fits p)) := by
  by_contra hnone
  -- Then what stands at the position belongs to an older unit, and the packet to a new slot.
  have hold : ∀ t ∈ a, a.position t.id = a.position p.id → t.id < p.id := by
    intro t ht hpos
    apply Int32.lt_of_le_of_ne
    · apply Int32.not_lt.mp
      intro hlt
      exact hnone ⟨t, ht, hpos, Or.inl hlt⟩
    · intro hid
      apply hnone
      refine ⟨t, ht, hpos, Or.inr ⟨hid, fun hfits => ?_⟩⟩
      exact h.not_takesIn ha t ⟨hadmits, hfin, hid, Or.inl ht, hfits⟩
  apply h.not_takesIn ha { id := p.id }
  refine ⟨hadmits, hfin, rfl, Or.inr ⟨rfl, hold⟩, Or.inl rfl, index_lt_of_admits hadmits, ?_⟩
  exact Finset.notMem_empty _

end Refuses

/-! ### What keeping a fragment leaves -/

theorem newest_noteKept (a : Assembly) (p : Packet) :
    ∃ n, (a.noteKept p).newest = some n ∧ p.id ≤ n ∧ ∀ m, a.newest = some m → m ≤ n := by
  simp only [noteKept, Option.some.injEq, exists_eq_left']
  cases a.newest with
  | none => exact ⟨Int32.le_refl _, fun m hm => by cases hm⟩
  | some n =>
      simp only [Option.some.injEq, forall_eq']
      split
      · rename_i hlt
        exact ⟨Int32.le_refl _, Int32.le_of_lt hlt⟩
      · rename_i hge
        exact ⟨Int32.not_lt.mp hge, Int32.le_refl _⟩

namespace TakesIn

variable {a : Assembly} {p : Packet} {s : Slot}

theorem sound_slot (ht : a.TakesIn p s) (h : a.Sound) : s.Sound := by
  rcases ht.place with hs | ⟨rfl, -⟩
  · exact h.slot s hs
  · exact Slot.sound_blank p.id

/-- A slot that takes a packet in was not taken: its unit is not finished. -/
theorem not_taken (ht : a.TakesIn p s) (h : a.Sound) : s.taken = false := by
  rcases ht.place with hs | ⟨rfl, -⟩
  · apply h.not_taken hs
    rw [ht.id_eq]
    exact ht.unfinished
  · rfl

theorem mem_keepIn (ht : a.TakesIn p s) (h : a.Sound) {t : Slot} :
    t ∈ a.keepIn p s ↔
      t = s.accept p ∨ (t ∈ a ∧ a.position t.id ≠ a.position p.id) := by
  have hkeep : t ∈ a.keepIn p s ↔ t ∈ (a.countSkipped (a.roomCost p.id)).put (s.accept p) := by
    rw [keepIn, makeRoom_eq]
    exact Iff.rfl
  have hput := (h.toPlaced.countSkipped (a.roomCost p.id)).mem_put (s := s.accept p) (t := t)
  rw [Slot.id_accept, ht.id_eq] at hput
  exact hkeep.trans hput

end TakesIn

theorem Sound.keepIn {a : Assembly} {p : Packet} {s : Slot} (h : a.Sound)
    (ht : a.TakesIn p s) : (a.keepIn p s).Sound where
  toPlaced := by
    have hput := (h.toPlaced.countSkipped (a.roomCost p.id)).put (s.accept p)
    rw [← makeRoom_eq] at hput
    exact ⟨hput.size_pos, hput.size_slots, hput.placed⟩
  slot := by
    intro t hmem
    rcases (ht.mem_keepIn h).mp hmem with rfl | ⟨hold, -⟩
    · exact ht.fits.sound_accept (ht.sound_slot h)
    · exact h.slot t hold
  newest := by
    obtain ⟨n, hn, hle, hmax⟩ := newest_noteKept ((a.makeRoom p.id).put (s.accept p)) p
    intro t hmem
    refine ⟨n, hn, ?_⟩
    rcases (ht.mem_keepIn h).mp hmem with rfl | ⟨hold, -⟩
    · rw [Slot.id_accept, ht.id_eq]
      exact hle
    · obtain ⟨m, hm, htm⟩ := h.newest t hold
      refine Int32.le_trans htm (hmax m ?_)
      rw [makeRoom_eq]
      exact hm
  finished := by
    intro t hmem htaken
    have hlast : (a.keepIn p s).isFinished t.id = a.isFinished t.id := by
      rw [Assembly.keepIn, makeRoom_eq]
      rfl
    rw [hlast]
    rcases (ht.mem_keepIn h).mp hmem with rfl | ⟨hold, -⟩
    · rw [Slot.taken_accept, ht.not_taken h] at htaken
      exact Bool.noConfusion htaken
    · exact h.finished t hold htaken

theorem Sound.receive {a : Assembly} (h : a.Sound) (p : Packet) : (a.receive p).2.Sound := by
  rcases receive_cases h p with hrefused | ⟨s, hs⟩
  · rcases hrefused.rest with hr | hr
    · rw [hr]
      exact h
    · rw [hr]
      exact h.countDuplicate
  · rw [receive_of_takesIn h hs]
    exact h.keepIn hs

/-! ### Handing a unit on -/

/-- The assembly after the unit of a slot was handed on. -/
def handOn (a : Assembly) (s : Slot) : Assembly :=
  let b := (a.put { s with taken := true }).giveUp s.id
  { b with
    counts := { b.counts with completed := b.counts.completed + 1 }
    lastTaken := some
      (match a.lastTaken with
      | some t => if t < s.id then s.id else t
      | none => s.id) }

/-- What handing on unit `id` makes of a slot. -/
def settle (a : Assembly) (id : Int32) (u : Slot) : Slot :=
  if u.id = id ∨ a.givesUp id u = true then { u with taken := true } else u

@[simp] theorem id_settle (a : Assembly) (id : Int32) (u : Slot) :
    (a.settle id u).id = u.id := by
  unfold settle
  split <;> rfl

theorem taken_settle (a : Assembly) (id : Int32) (u : Slot) :
    (a.settle id u).taken = true ↔ u.taken = true ∨ u.id = id ∨ a.givesUp id u = true := by
  unfold settle
  split
  · rename_i h
    simp [h]
  · rename_i h
    simp [h]

theorem sound_settle {a : Assembly} {id : Int32} {u : Slot} (hu : u.Sound) :
    (a.settle id u).Sound := by
  unfold settle
  split
  · exact ⟨hu.length_cells, hu.received_eq, hu.unsized⟩
  · exact hu

/-- **A unit is handed on exactly if its slot is whole and was not taken.** -/
theorem take?_eq_some {a : Assembly} (h : a.Placed) {id : Int32} {b : Bytes} {c : Assembly} :
    a.take? id = some (b, c) ↔
      ∃ s ∈ a, s.id = id ∧ s.taken = false ∧ s.isComplete = true ∧
        b = s.contents ∧ c = a.handOn s := by
  unfold take?
  cases hof : a.slotOf? id with
  | none =>
      have hnone := h.slotOf?_eq_none.mp hof
      constructor
      · intro hc
        cases hc
      · rintro ⟨s, hs, hid, -⟩
        exact absurd hid (hnone s hs)
  | some s =>
      obtain ⟨hs, hid⟩ := h.slotOf?_eq_some.mp hof
      by_cases hcond : s.taken = true ∨ ¬ s.isComplete = true
      · simp only [if_pos hcond, reduceCtorEq, false_iff]
        rintro ⟨t, ht, htid, htaken, hcomplete, -⟩
        have hts : t = s := h.eq_of_id_eq ht hs (htid.trans hid.symm)
        subst hts
        rcases hcond with hc | hc
        · rw [htaken] at hc
          exact Bool.noConfusion hc
        · exact hc hcomplete
      · have hopen : s.taken = false := by
          by_contra hc
          exact hcond (Or.inl (by simpa using hc))
        have hcomplete : s.isComplete = true := by
          by_contra hc
          exact hcond (Or.inr hc)
        simp only [if_neg hcond, Option.some.injEq, Prod.mk.injEq]
        subst hid
        constructor
        · rintro ⟨rfl, rfl⟩
          exact ⟨s, hs, rfl, hopen, hcomplete, rfl, rfl⟩
        · rintro ⟨t, ht, htid, -, -, rfl, rfl⟩
          have hts : t = s := h.eq_of_id_eq ht hs htid
          subst hts
          exact ⟨rfl, rfl⟩

theorem mem_giveUp {a : Assembly} {id : Int32} {t : Slot} :
    t ∈ a.giveUp id ↔
      ∃ u ∈ a, t = if a.givesUp id u then { u with taken := true } else u := by
  have hslots : (a.giveUp id).slots = a.slots.map fun s =>
      s.map fun s => if a.givesUp id s then { s with taken := true } else s := rfl
  rw [mem_def, hslots, Array.mem_map]
  constructor
  · rintro ⟨o, ho, heq⟩
    obtain ⟨u, rfl, hu⟩ := Option.map_eq_some_iff.mp heq
    exact ⟨u, ho, hu.symm⟩
  · rintro ⟨u, hu, rfl⟩
    exact ⟨some u, hu, rfl⟩

theorem mem_handOn {a : Assembly} (h : a.Placed) {s t : Slot} (hs : s ∈ a) :
    t ∈ a.handOn s ↔ ∃ u ∈ a, t = a.settle s.id u := by
  have hgives (u : Slot) :
      (a.put { s with taken := true }).givesUp s.id u = a.givesUp s.id u := rfl
  have hself : (a.givesUp s.id { s with taken := true }) = false := by
    simp [givesUp]
  have hmem : t ∈ a.handOn s ↔ t ∈ (a.put { s with taken := true }).giveUp s.id := Iff.rfl
  rw [hmem, mem_giveUp]
  constructor
  · rintro ⟨u, hu, rfl⟩
    rw [hgives]
    rcases h.mem_put.mp hu with rfl | ⟨hua, hne⟩
    · refine ⟨s, hs, ?_⟩
      rw [settle, if_pos (Or.inl rfl), hself]
      rfl
    · refine ⟨u, hua, ?_⟩
      have hid : ¬ u.id = s.id := fun hc => hne (by rw [hc])
      simp [settle, hid]
  · rintro ⟨u, hu, rfl⟩
    by_cases hid : u.id = s.id
    · have hus : u = s := h.eq_of_id_eq hu hs hid
      refine ⟨{ s with taken := true }, h.mem_put.mpr (Or.inl rfl), ?_⟩
      rw [hgives, hself, settle, if_pos (Or.inl hid), hus]
      rfl
    · refine ⟨u, h.mem_put.mpr (Or.inr ⟨hu, fun hc => hid ?_⟩), ?_⟩
      · exact congrArg Slot.id (h.eq_of_position_eq hu hs hc)
      · rw [hgives]
        simp [settle, hid]

/-- A unit that has its slot, or lost it to a younger one, still does afterwards. -/
theorem exists_ge_handOn {a : Assembly} (h : a.Placed) {s : Slot} (hs : s ∈ a) {id : Int32}
    (hid : ∃ u ∈ a, a.position u.id = a.position id ∧ id ≤ u.id) :
    ∃ t ∈ a.handOn s, (a.handOn s).position t.id = (a.handOn s).position id ∧ id ≤ t.id := by
  obtain ⟨u, hu, hpos, hle⟩ := hid
  refine ⟨a.settle s.id u, (mem_handOn h hs).mpr ⟨u, hu, rfl⟩, ?_, ?_⟩
  · rw [id_settle]
    exact hpos
  · rw [id_settle]
    exact hle

/-- Handing a unit on finishes it and every older one. -/
theorem isFinished_handOn (a : Assembly) (s : Slot) (id : Int32) :
    (a.handOn s).isFinished id = true ↔ a.isFinished id = true ∨ id ≤ s.id := by
  simp only [handOn, isFinished, Option.any_some, decide_eq_true_eq]
  cases a.lastTaken with
  | none => simp
  | some t =>
      simp only [Option.any_some, decide_eq_true_eq]
      split
      · rename_i hlt
        constructor
        · exact Or.inr
        · rintro (hle | hle)
          · exact Int32.le_trans hle (Int32.le_of_lt hlt)
          · exact hle
      · rename_i hge
        constructor
        · exact Or.inl
        · rintro (hle | hle)
          · exact hle
          · exact Int32.le_trans hle (Int32.not_lt.mp hge)

theorem id_lt_of_givesUp {a : Assembly} {id : Int32} {u : Slot} (h : a.givesUp id u = true) :
    u.id < id := by
  simp only [givesUp, Bool.and_eq_true, decide_eq_true_eq] at h
  exact h.1.2

theorem Placed.handOn {a : Assembly} (h : a.Placed) (s : Slot) : (a.handOn s).Placed := by
  have hput := h.put { s with taken := true }
  refine ⟨hput.size_pos, ?_, ?_⟩
  · show ((a.put { s with taken := true }).slots.map _).size = a.limits.size
    rw [Array.size_map]
    exact hput.size_slots
  · intro i t ht
    change ((a.put { s with taken := true }).slots.map _)[i]? = some (some t) at ht
    rw [Array.getElem?_map, Option.map_eq_some_iff] at ht
    obtain ⟨o, ho, heq⟩ := ht
    obtain ⟨u, rfl, rfl⟩ := Option.map_eq_some_iff.mp heq
    have hplace := hput.placed i u ho
    split <;> exact hplace

theorem Sound.handOn {a : Assembly} {s : Slot} (h : a.Sound) (hs : s ∈ a) :
    (a.handOn s).Sound where
  toPlaced := h.toPlaced.handOn s
  slot := by
    intro t ht
    obtain ⟨u, hu, rfl⟩ := (mem_handOn h.toPlaced hs).mp ht
    exact sound_settle (h.slot u hu)
  newest := by
    intro t ht
    obtain ⟨u, hu, rfl⟩ := (mem_handOn h.toPlaced hs).mp ht
    rw [id_settle]
    exact h.newest u hu
  finished := by
    intro t ht htaken
    obtain ⟨u, hu, rfl⟩ := (mem_handOn h.toPlaced hs).mp ht
    rw [id_settle, isFinished_handOn]
    rcases (taken_settle a s.id u).mp htaken with hold | hid | hgives
    · exact Or.inl (h.finished u hu hold)
    · exact Or.inr (by rw [hid]; exact Int32.le_refl _)
    · exact Or.inr (Int32.le_of_lt (id_lt_of_givesUp hgives))

end Assembly

end Framecast
