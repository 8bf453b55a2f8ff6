/-
What a ring holds does not depend on the order in which the packets came.

Two orders of the same packets take a ring through different assemblies.  An older unit may
be stored and pushed out in one of them and refused as stale in the other, and when it is
pushed out, what had come of it is lost.  Still the ring ends up with the same slots, as long
as the packets do not contradict one another, and nothing is taken or asked for in between.

For at each position the ring has the youngest unit of which it admits anything, and a unit
that stays until the end has lost nothing: it has all of its fragments that came (`Gathers`).
That says of every slot which unit it is, of what size, and what stands at each place
(`Collects`), and a slot is given by that.  The argument never compares the two runs step by
step.

The newest unit seen is the same, too, since it always has a slot.  The oldest one is not: of
a unit that is refused as stale nothing is noted.
-/
import Framecast.Proofs.Assembly.Budget
import Framecast.Proofs.Assembly.Finality

namespace Framecast

/-- The packets do not contradict one another: those of one unit say the same number of
fragments, and those for one place of a unit carry the same payload. -/
structure Consistent (packets : List Packet) : Prop where
  count : ∀ p ∈ packets, ∀ q ∈ packets, p.id = q.id → p.count = q.count
  payload : ∀ p ∈ packets, ∀ q ∈ packets, p.id = q.id → p.index = q.index →
    p.payload = q.payload

theorem Consistent.subset {packets fewer : List Packet} (h : Consistent packets)
    (hsub : fewer ⊆ packets) : Consistent fewer where
  count p hp q hq := h.count p (hsub hp) q (hsub hq)
  payload p hp q hq := h.payload p (hsub hp) q (hsub hq)

/-! ### What gives a slot -/

/-- Cells with the same payload that note the same requests are the same. -/
theorem Cell.Notes.eq {c d : Cell} {times : List Int} (hc : c.Notes times) (hd : d.Notes times)
    (hpayload : c.payload = d.payload) : c = d := by
  cases c
  cases d
  simp only [Cell.mk.injEq]
  exact ⟨hpayload, hc.requests.trans hd.requests.symm, hc.lastRequest.trans hd.lastRequest.symm⟩

namespace Slot

/-- Nothing was asked for of the unit of a slot. -/
def Unasked (s : Slot) : Prop :=
  ∀ i, (s.cellAt i).Notes []

theorem unasked_blank (id : Int32) : ({ id } : Slot).Unasked := by
  intro i
  rw [cellAt_blank]
  exact Cell.notes_blank

theorem Unasked.accept {s : Slot} (h : s.Unasked) (hs : s.Sound) (p : Packet) :
    (s.accept p).Unasked := by
  intro i
  exact notes_accept hs (h i) p

/-- **A slot is given by its unit, its size and what it holds**, if nothing was asked for of
it. -/
theorem Gauged.eq_of_payload?_eq {s t : Slot} (hs : s.Gauged) (ht : t.Gauged)
    (hunasked : s.Unasked ∧ t.Unasked) (hid : s.id = t.id) (hcount : s.count = t.count)
    (htaken : s.taken = t.taken) (hpayload : ∀ i, s.payload? i = t.payload? i) : s = t := by
  have hfilled : s.filled = t.filled := by
    ext i
    rw [mem_filled_iff_payload?, mem_filled_iff_payload?, hpayload]
  have hlength : s.cells.length = t.cells.length := by
    rw [hs.sound.length_cells, ht.sound.length_cells, hcount]
  have hcells : s.cells = t.cells := by
    apply List.ext_getElem hlength
    intro i hi hi'
    have hsame := hpayload i
    have hnotes := hunasked.1 i
    have hnotes' := hunasked.2 i
    simp only [payload?, cellAt, List.getElem?_eq_getElem hi, List.getElem?_eq_getElem hi',
      Option.bind_some, Option.getD_some] at hsame hnotes hnotes'
    exact hnotes.eq hnotes' hsame
  have hreceived : s.received = t.received := by
    rw [hs.sound.received_eq, ht.sound.received_eq, hfilled]
  have hhighest : s.highest = t.highest := by
    rw [hs.topped, ht.topped, hfilled]
  cases s
  cases t
  simp only [Slot.mk.injEq]
  exact ⟨hid, hcount, hcells, hreceived, hhighest, htaken⟩

/-! ### What was heard of a unit -/

/-- The slot holds nothing but what was heard of its unit, and nothing was asked for of it. -/
structure Echoes (s : Slot) (heard : List Packet) : Prop where
  unasked : s.Unasked
  source : ∀ i b, s.payload? i = some b →
    ∃ p ∈ heard, p.id = s.id ∧ p.index.toNat = i ∧ p.payload = b

namespace Echoes

variable {s : Slot} {heard : List Packet} {p : Packet}

theorem blank (id : Int32) (heard : List Packet) : ({ id } : Slot).Echoes heard where
  unasked := unasked_blank id
  source := by
    intro i b hb
    rw [(sound_blank id).payload?_of_unsized rfl] at hb
    cases hb

theorem append (h : s.Echoes heard) (later : List Packet) : s.Echoes (heard ++ later) where
  unasked := h.unasked
  source := by
    intro i b hb
    obtain ⟨q, hq, hqs⟩ := h.source i b hb
    exact ⟨q, List.mem_append_left _ hq, hqs⟩

theorem accept (h : s.Echoes heard) (hs : s.Sound) (hf : s.Fits p) (hid : s.id = p.id) :
    (s.accept p).Echoes (heard ++ [p]) where
  unasked := h.unasked.accept hs p
  source := by
    intro i b hb
    rw [hf.payload?_accept hs] at hb
    rw [id_accept]
    by_cases hi : i = p.index.toNat
    · rw [if_pos hi, Option.some.injEq] at hb
      exact ⟨p, by simp, hid.symm, hi.symm, hb⟩
    · rw [if_neg hi] at hb
      exact (h.append [p]).source i b hb

end Echoes

end Slot

namespace Assembly

/-! ### What a ring gathers -/

/-- The ring has, at every position, the youngest unit of which it heard anything, with all
that it heard of it, and with nothing else. -/
structure Gathers (heard : List Packet) (a : Assembly) : Prop where
  unfinished : a.lastTaken = none
  slot : ∀ s ∈ a, s.Echoes heard
  /-- A slot is there since something of its unit was heard. -/
  unit : ∀ s ∈ a, ∃ p ∈ heard, p.id = s.id ∧ p.count.toNat = s.count
  /-- What was heard is in its slot, unless a younger unit stands there. -/
  kept : ∀ p ∈ heard, ∃ s ∈ a, a.position s.id = a.position p.id ∧
    (p.id < s.id ∨ (s.id = p.id ∧ s.payload? p.index.toNat = some p.payload))

namespace Gathers

variable {heard : List Packet} {a : Assembly} {p : Packet}

/-- No unit was handed on, and none was given up. -/
theorem not_taken (h : Gathers heard a) (ha : a.Sound) {s : Slot} (hs : s ∈ a) :
    s.taken = false :=
  ha.not_taken hs (isFinished_of_lastTaken h.unfinished s.id)

/-- A packet that is refused is too old, or is in its slot already. -/
theorem refused (h : Gathers heard a) (ha : a.Sound) (hcons : Consistent (heard ++ [p]))
    (hadmits : a.admits p = true) (hrefused : a.Refuses p) :
    Gathers (heard ++ [p]) (a.receive p).2 where
  unfinished := by
    rw [(opening_receive ha p).lastTaken]
    exact h.unfinished
  slot s hs := (h.slot s (hrefused.mem_iff.mp hs)).append [p]
  unit := by
    intro s hs
    obtain ⟨q, hq, hqs⟩ := h.unit s (hrefused.mem_iff.mp hs)
    exact ⟨q, List.mem_append_left _ hq, hqs⟩
  kept := by
    intro q hq
    simp only [hrefused.mem_iff, hrefused.position_eq]
    rcases List.mem_append.mp hq with hold | hlast
    · exact h.kept q hold
    rw [List.mem_singleton.mp hlast]
    obtain ⟨s, hs, hpos, hlt | ⟨hid, hfits⟩⟩ :=
      hrefused.exists_slot ha hadmits (isFinished_of_lastTaken h.unfinished p.id)
    · exact ⟨s, hs, hpos, Or.inl hlt⟩
    · refine ⟨s, hs, hpos, Or.inr ⟨hid, ?_⟩⟩
      have hcount : s.count = p.count.toNat := by
        obtain ⟨r, hr, hrid, hrcount⟩ := h.unit s hs
        rw [← hrcount, hcons.count r (List.mem_append_left _ hr) p (by simp) (hrid.trans hid)]
      -- The size is right, so the packet does not fit because its place is filled.
      have hfilled : p.index.toNat ∈ s.filled := by
        by_contra hempty
        exact hfits ⟨Or.inr hcount, index_lt_of_admits hadmits, hempty⟩
      obtain ⟨b, hb⟩ := Slot.mem_filled_iff_payload?.mp hfilled
      obtain ⟨r, hr, hrid, hrindex, rfl⟩ := (h.slot s hs).source _ b hb
      rw [hb, hcons.payload r (List.mem_append_left _ hr) p (by simp) (hrid.trans hid)
        (UInt16.toNat_inj.mp hrindex)]

/-- What is kept of the packets before `p` when `p` is put into the slot `s`. -/
theorem kept_of_takesIn (h : Gathers heard a) (ha : a.Sound) {s : Slot} (hs : a.TakesIn p s)
    {q : Packet} (hq : q ∈ heard) : ∃ t ∈ a.keepIn p s, a.position t.id = a.position q.id ∧
      (q.id < t.id ∨ (t.id = q.id ∧ t.payload? q.index.toNat = some q.payload)) := by
  obtain ⟨t, ht, hpos, hqt⟩ := h.kept q hq
  by_cases hother : a.position t.id = a.position p.id
  swap
  · exact ⟨t, (hs.mem_keepIn ha).mpr (Or.inr ⟨ht, hother⟩), hpos, hqt⟩
  refine ⟨s.accept p, (hs.mem_keepIn ha).mpr (Or.inl rfl), ?_⟩
  rw [Slot.id_accept, hs.id_eq]
  refine ⟨hother.symm.trans hpos, ?_⟩
  rcases hs.place with hmem | ⟨-, hyoung⟩
  · -- The slot of `q` is the one that `p` goes to, and there it takes another place.
    have hts : t = s := ha.eq_of_position_eq ht hmem (by rw [hother, hs.id_eq])
    subst hts
    rw [← hs.id_eq]
    rcases hqt with hlt | ⟨hid, hpayload⟩
    · exact Or.inl hlt
    · refine Or.inr ⟨hid, ?_⟩
      have hne : q.index.toNat ≠ p.index.toNat := by
        intro heq
        apply hs.fits.empty
        rw [← heq]
        exact Slot.mem_filled_iff_payload?.mpr ⟨_, hpayload⟩
      rw [hs.fits.payload?_accept (hs.sound_slot ha), if_neg hne]
      exact hpayload
  · left
    have hlt := hyoung t ht hother
    rcases hqt with hqlt | ⟨hid, -⟩
    · exact Int32.lt_trans hqlt hlt
    · rw [← hid]
      exact hlt

/-- A packet that is put into a slot is heard, and nothing that is still wanted gets lost. -/
theorem takesIn (h : Gathers heard a) (ha : a.Sound) {s : Slot} (hs : a.TakesIn p s) :
    Gathers (heard ++ [p]) (a.receive p).2 := by
  have hsound := hs.sound_slot ha
  have hid : (s.accept p).id = p.id := by rw [Slot.id_accept, hs.id_eq]
  have hopen := opening_receive ha p
  have hposition (id : Int32) : (a.receive p).2.position id = a.position id := by
    rw [position, position, hopen.limits]
  have hlast : (a.receive p).2.lastTaken = none := hopen.lastTaken.trans h.unfinished
  have hmem (t : Slot) : t ∈ (a.receive p).2 ↔ t ∈ a.keepIn p s := by
    rw [receive_of_takesIn ha hs]
  refine ⟨hlast, ?_, ?_, ?_⟩
  · intro t ht
    rcases (hs.mem_keepIn ha).mp ((hmem t).mp ht) with rfl | ⟨hold, -⟩
    · have hbefore : s.Echoes heard := by
        rcases hs.place with hold | ⟨rfl, -⟩
        · exact h.slot s hold
        · exact Slot.Echoes.blank p.id heard
      exact hbefore.accept hsound hs.fits hs.id_eq
    · exact (h.slot t hold).append [p]
  · intro t ht
    rcases (hs.mem_keepIn ha).mp ((hmem t).mp ht) with rfl | ⟨hold, -⟩
    · exact ⟨p, by simp, hid.symm, (hs.fits.count_accept hsound).symm⟩
    · obtain ⟨q, hq, hqt⟩ := h.unit t hold
      exact ⟨q, List.mem_append_left _ hq, hqt⟩
  · intro q hq
    simp only [hmem, hposition]
    rcases List.mem_append.mp hq with hold | hnew
    · exact h.kept_of_takesIn ha hs hold
    · rw [List.mem_singleton.mp hnew]
      refine ⟨s.accept p, (hs.mem_keepIn ha).mpr (Or.inl rfl), by rw [hid], Or.inr ⟨hid, ?_⟩⟩
      rw [hs.fits.payload?_accept hsound, if_pos rfl]

theorem receive (h : Gathers heard a) (ha : a.Sound) (hcons : Consistent (heard ++ [p]))
    (hadmits : a.admits p = true) : Gathers (heard ++ [p]) (a.receive p).2 := by
  rcases receive_cases ha p with hrefused | ⟨s, hs⟩
  · exact h.refused ha hcons hadmits hrefused
  · exact h.takesIn ha hs

end Gathers

/-- **A ring that nothing is taken from and that asks for nothing gathers what it admits.** -/
theorem gathers_run (channel : Channel) (limits : Limits) {packets : List Packet}
    (hcons : Consistent packets) :
    Gathers (packets.filter (empty channel limits).admits)
      ((empty channel limits).run (packets.map .receive)) := by
  induction packets using List.reverseRecOn with
  | nil =>
      have hnone := not_mem_empty channel limits
      refine ⟨rfl, ?_, ?_, ?_⟩
      · exact fun s hs => absurd hs (hnone s)
      · exact fun s hs => absurd hs (hnone s)
      · exact fun p hp => absurd hp List.not_mem_nil
  | append_singleton packets p ih =>
      have hempty := sound_empty channel limits
      have hbefore := ih (hcons.subset (List.subset_append_left _ _))
      have hadmits := admits_run hempty (packets.map .receive) p
      rw [List.map_append, List.map_singleton, run_concat, List.filter_append]
      show Gathers _ (((empty channel limits).run (packets.map .receive)).receive p).2
      by_cases hp : (empty channel limits).admits p = true
      · rw [List.filter_cons_of_pos hp, List.filter_nil]
        refine hbefore.receive (hempty.run _) (hcons.subset ?_) (hadmits.trans hp)
        intro q hq
        rcases List.mem_append.mp hq with hold | hlast
        · exact List.mem_append_left _ (List.mem_of_mem_filter hold)
        · exact List.mem_append_right _ hlast
      · have hsame : (((empty channel limits).run (packets.map .receive)).receive p).2 =
            (empty channel limits).run (packets.map .receive) := by
          rw [Assembly.receive, if_pos (by rw [hadmits]; exact hp)]
        rw [List.filter_cons_of_neg hp, List.filter_nil, List.append_nil, hsame]
        exact hbefore

/-! ### The same slots in any order -/

/-- Place `i` of the ring holds the youngest unit that was heard of there, with all that was
heard of it. -/
structure Collects (ring : Assembly) (heard : List Packet) (i : Nat) (s : Slot) : Prop where
  position : ring.position s.id = i
  unit : ∃ p ∈ heard, p.id = s.id ∧ p.count.toNat = s.count
  youngest : ∀ p ∈ heard, ring.position p.id = i → p.id ≤ s.id
  payload : ∀ j b, s.payload? j = some b ↔
    ∃ p ∈ heard, p.id = s.id ∧ p.index.toNat = j ∧ p.payload = b

/-- **A ring that gathers holds at each place what was heard of its youngest unit.** -/
theorem Gathers.collects {ring a : Assembly} {heard : List Packet} (h : Gathers heard a)
    (ha : a.Placed) (hring : ∀ id, ring.position id = a.position id) {s : Slot} (hs : s ∈ a) :
    Collects ring heard (ring.position s.id) s where
  position := rfl
  unit := h.unit s hs
  youngest := by
    intro p hp hpos
    rw [hring, hring] at hpos
    obtain ⟨t, ht, htpos, hpt⟩ := h.kept p hp
    have hts : t = s := ha.eq_of_position_eq ht hs (htpos.trans hpos)
    subst hts
    rcases hpt with hlt | ⟨hid, -⟩
    · exact Int32.le_of_lt hlt
    · rw [hid]
      exact Int32.le_refl _
  payload := by
    intro j b
    constructor
    · exact (h.slot s hs).source j b
    · rintro ⟨p, hp, hid, rfl, rfl⟩
      obtain ⟨t, ht, htpos, hpt⟩ := h.kept p hp
      have hts : t = s := ha.eq_of_position_eq ht hs (by rw [htpos, hid])
      subst hts
      rcases hpt with hlt | ⟨-, hpayload⟩
      · rw [hid] at hlt
        exact absurd hlt Int32.lt_irrefl
      · exact hpayload

namespace Collects

variable {ring : Assembly} {heard others : List Packet} {i : Nat} {s t : Slot}

/-- Only what was heard counts, not in which order. -/
theorem congr (h : Collects ring heard i s) (hmem : ∀ p, p ∈ heard ↔ p ∈ others) :
    Collects ring others i s where
  position := h.position
  unit := by
    obtain ⟨p, hp, hps⟩ := h.unit
    exact ⟨p, (hmem p).mp hp, hps⟩
  youngest p hp := h.youngest p ((hmem p).mpr hp)
  payload j b := by
    simp only [h.payload, hmem]

theorem id_le (hs : Collects ring heard i s) (ht : Collects ring heard i t) : s.id ≤ t.id := by
  obtain ⟨p, hp, hid, -⟩ := hs.unit
  rw [← hid]
  apply ht.youngest p hp
  rw [hid]
  exact hs.position

/-- **What a place of the ring is to hold is determined.** -/
theorem unique (hs : Collects ring heard i s) (ht : Collects ring heard i t)
    (hcons : Consistent heard) :
    s.id = t.id ∧ s.count = t.count ∧ ∀ j, s.payload? j = t.payload? j := by
  have hid : s.id = t.id := Int32.le_antisymm (hs.id_le ht) (ht.id_le hs)
  refine ⟨hid, ?_, fun j => ?_⟩
  · obtain ⟨p, hp, hps, hpcount⟩ := hs.unit
    obtain ⟨q, hq, hqt, hqcount⟩ := ht.unit
    rw [← hpcount, ← hqcount, hcons.count p hp q hq (by rw [hps, hqt, hid])]
  · apply Option.ext
    intro b
    rw [hs.payload, ht.payload, hid]

end Collects

section Orders

variable {channel : Channel} {limits : Limits} {packets others : List Packet}

theorem collects_run (hcons : Consistent packets) {i : Nat} {s : Slot}
    (hs : ((empty channel limits).run (packets.map .receive)).slots[i]? = some (some s)) :
    Collects (empty channel limits) (packets.filter (empty channel limits).admits) i s := by
  have hempty := sound_empty channel limits
  have hplaced := (hempty.run (packets.map .receive)).toPlaced
  obtain ⟨hmem, rfl⟩ := hplaced.getElem?_eq_some_iff.mp hs
  rw [position_run hempty]
  apply (gathers_run channel limits hcons).collects hplaced _ hmem
  intro id
  rw [position_run hempty]

theorem exists_slot_run (hcons : Consistent packets) {p : Packet}
    (hp : p ∈ packets.filter (empty channel limits).admits) :
    ∃ s, ((empty channel limits).run (packets.map .receive)).slots[
      (empty channel limits).position p.id]? = some (some s) := by
  have hempty := sound_empty channel limits
  obtain ⟨s, hs, hpos, -⟩ := (gathers_run channel limits hcons).kept p hp
  refine ⟨s, (hempty.run _).getElem?_eq_some_iff.mpr ⟨hs, ?_⟩⟩
  rw [hpos, position_run hempty]

/-- **A slot of one order is a slot of the other.** -/
theorem mem_run_of_mem_run (hcons : Consistent packets) (hmem : ∀ p, p ∈ packets ↔ p ∈ others)
    {s : Slot} (hs : s ∈ (empty channel limits).run (packets.map .receive)) :
    s ∈ (empty channel limits).run (others.map .receive) := by
  have hcons' : Consistent others := hcons.subset fun p hp => (hmem p).mpr hp
  have hheard (p : Packet) : p ∈ packets.filter (empty channel limits).admits ↔
      p ∈ others.filter (empty channel limits).admits := by
    rw [List.mem_filter, List.mem_filter, hmem]
  have hempty := sound_empty channel limits
  have hnone := not_mem_empty channel limits
  have hsound := hempty.run (packets.map .receive)
  have hsound' := hempty.run (others.map .receive)
  have hgauged := gauged_run hempty fun s hs => absurd hs (hnone s)
  have ha := gathers_run channel limits hcons
  have hb := gathers_run channel limits hcons'
  have hcollects := collects_run hcons (hsound.getElem?_position hs)
  -- In the other order, too, something stands where the unit of the slot has its position.
  obtain ⟨p, hp, hid, -⟩ := hcollects.unit
  obtain ⟨t, ht⟩ := exists_slot_run hcons' ((hheard p).mp hp)
  rw [hid, ← position_run hempty (packets.map .receive)] at ht
  have hcollects' := (collects_run hcons' ht).congr fun p => (hheard p).symm
  obtain ⟨hst, hcount, hpayload⟩ :=
    hcollects.unique hcollects' (hcons.subset (List.filter_subset_self _))
  obtain ⟨htmem, -⟩ := hsound'.getElem?_eq_some_iff.mp ht
  have htaken : s.taken = t.taken := by
    rw [ha.not_taken hsound hs, hb.not_taken hsound' htmem]
  have heq : s = t := (hgauged _ s hs).eq_of_payload?_eq (hgauged _ t htmem)
    ⟨(ha.slot s hs).unasked, (hb.slot t htmem).unasked⟩ hst hcount htaken hpayload
  rw [heq]
  exact htmem

/-- The newest unit is the youngest one that has a slot, after any run. -/
theorem newest_run_eq_some_iff (calls : List Call) {n : Int32} :
    ((empty channel limits).run calls).newest = some n ↔
      (∃ s ∈ (empty channel limits).run calls, s.id = n) ∧
        ∀ s ∈ (empty channel limits).run calls, s.id ≤ n := by
  have hsound := (sound_empty channel limits).run calls
  have hslot {m : Int32} (hm : ((empty channel limits).run calls).newest = some m) :
      ∃ s ∈ (empty channel limits).run calls, s.id = m := by
    obtain ⟨s, hs⟩ := Option.ne_none_iff_exists'.mp (ongoing_run channel limits calls hm).newest_mem
    exact ⟨s, hsound.slotOf?_eq_some.mp hs⟩
  constructor
  · intro hn
    refine ⟨hslot hn, fun s hs => ?_⟩
    obtain ⟨m, hm, hle⟩ := hsound.newest s hs
    rw [hn, Option.some.injEq] at hm
    rw [hm]
    exact hle
  · rintro ⟨⟨s, hs, rfl⟩, hmax⟩
    obtain ⟨m, hm, hle⟩ := hsound.newest s hs
    obtain ⟨t, ht, rfl⟩ := hslot hm
    rw [hm, Int32.le_antisymm (hmax t ht) hle]

/--
**What a ring holds does not depend on the order in which the packets came.**  If packets
that do not contradict one another come in any two orders, each to a ring that has seen
nothing, then

* the two rings hold the same slots at the same places, and have seen the same newest unit;
* each place holds the youngest unit of which anything is admitted there, with every fragment
  of it that is admitted, and with no other;
* no place is vacant at which anything is admitted.
-/
theorem order_of_arrival_does_not_matter (channel : Channel) (limits : Limits)
    (packets others : List Packet) (hcons : Consistent packets) (hperm : packets.Perm others) :
    let ring := empty channel limits
    let heard := packets.filter ring.admits
    let a := ring.run (packets.map .receive)
    let b := ring.run (others.map .receive)
    (a.slots = b.slots ∧ a.newest = b.newest) ∧
    (∀ (i : Nat) (s : Slot), a.slots[i]? = some (some s) → Collects ring heard i s) ∧
    ∀ p ∈ heard, ∃ s, a.slots[ring.position p.id]? = some (some s) := by
  intro ring heard a b
  have hempty := sound_empty channel limits
  have hcons' : Consistent others := hcons.subset hperm.symm.subset
  have hmem (s : Slot) : s ∈ a ↔ s ∈ b := by
    constructor
    · exact mem_run_of_mem_run hcons fun p => hperm.mem_iff
    · exact mem_run_of_mem_run hcons' fun p => hperm.symm.mem_iff
  refine ⟨⟨?_, ?_⟩, fun i s hs => collects_run hcons hs, fun p hp => exists_slot_run hcons hp⟩
  · apply (hempty.run _).slots_eq_of_mem_iff (hempty.run _).toPlaced _ hmem
    rw [(run_limits hempty _).1, (run_limits hempty _).1]
  · apply Option.ext
    intro n
    rw [newest_run_eq_some_iff, newest_run_eq_some_iff]
    simp only [a, b, ring] at hmem
    simp only [hmem]

/-- Units 0 and 2 share a place of a ring of two.  Unit 0 is stored and pushed out in one
order, and refused in the other. -/
theorem order_of_colliding_units :
    let ring := empty .video { size := 2 }
    let older : Packet := { id := 0 }
    let first : Packet := { id := 2, count := 2 }
    let second : Packet := { id := 2, index := 1, count := 2 }
    let a := ring.run ([older, first, second].map .receive)
    let b := ring.run ([second, older, first].map .receive)
    a.slots = b.slots ∧ a.newest = b.newest :=
  (order_of_arrival_does_not_matter .video { size := 2 }
    [{ id := 0 }, { id := 2, count := 2 }, { id := 2, index := 1, count := 2 }]
    [{ id := 2, index := 1, count := 2 }, { id := 0 }, { id := 2, count := 2 }]
    ⟨by decide, by decide⟩ (by decide)).1

end Orders

end Assembly

end Framecast
