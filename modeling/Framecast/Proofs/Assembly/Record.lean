/-
What a slot holds, whatever comes in.

No sender is assumed here: the packets may contradict one another, repeat, and belong to
units that lost their slots.  A place of a slot still holds what the first packet that
was kept of it carried, over the whole run.  For a unit that has lost its slot never
gets one again, and a slot that is there keeps what it has.

So the contents of a whole unit can be read off the record of the run.
-/
import Framecast.Proofs.Assembly.Run

namespace Framecast

/-- What the first packet for a place of a unit carries. -/
def firstOf (packets : List Packet) (id : Int32) (i : Nat) : Option Bytes :=
  (packets.find? fun p => p.id = id ∧ p.index.toNat = i).map Packet.payload

theorem firstOf_append (packets later : List Packet) (id : Int32) (i : Nat) :
    firstOf (packets ++ later) id i = (firstOf packets id i).or (firstOf later id i) := by
  rw [firstOf, List.find?_append, firstOf, firstOf, Option.map_or]

theorem firstOf_singleton (p : Packet) (id : Int32) (i : Nat) :
    firstOf [p] id i = if p.id = id ∧ p.index.toNat = i then some p.payload else none := by
  by_cases h : p.id = id ∧ p.index.toNat = i
  · simp [firstOf, h]
  · simp [firstOf, h]

theorem firstOf_eq_none {packets : List Packet} {id : Int32} (h : ∀ p ∈ packets, p.id ≠ id)
    (i : Nat) : firstOf packets id i = none := by
  rw [firstOf, Option.map_eq_none_iff, List.find?_eq_none]
  intro p hp hc
  simp only [decide_eq_true_eq] at hc
  exact h p hp hc.1

namespace Assembly

/-- The packet that a step kept, if it did. -/
def Step.kept? (st : Step) : Option Packet :=
  match st.call, st.answer with
  | .receive p, .verdict v => if v = .stored ∨ v = .completed then some p else none
  | _, _ => none

/-- The packets that were kept, in order. -/
def kept (steps : List Step) : List Packet :=
  steps.filterMap Step.kept?

theorem kept_append (steps later : List Step) : kept (steps ++ later) = kept steps ++ kept later :=
  List.filterMap_append

theorem kept_concat_of_none {steps : List Step} {st : Step} (h : st.kept? = none) :
    kept (steps ++ [st]) = kept steps := by
  simp [kept, h]

theorem kept_concat_of_takesIn {a : Assembly} {p : Packet} {s : Slot} (ha : a.Sound)
    (ht : a.TakesIn p s) (steps : List Step) :
    kept (steps ++ [a.step (.receive p)]) = kept steps ++ [p] := by
  have hstep : (a.step (.receive p)).kept? = some p := by
    simp only [step, perform, receive_of_takesIn ha ht, Step.kept?, keptVerdict]
    split <;> simp
  simp [kept, hstep]

theorem kept?_of_refused {a : Assembly} {p : Packet} (h : Refusal (a.receive p).1) :
    (a.step (.receive p)).kept? = none := by
  rcases h with hv | hv | hv
  · simp [step, perform, Step.kept?, hv]
  · simp [step, perform, Step.kept?, hv]
  · simp [step, perform, Step.kept?, hv]

/-- The slots hold what was kept first. -/
structure Recorded (steps : List Step) (a : Assembly) : Prop where
  payload : ∀ s ∈ a, ∀ i, s.payload? i = firstOf (kept steps) s.id i
  /-- A unit of which something was kept has its slot, or lost it to a younger one. -/
  present : ∀ p ∈ kept steps, ∃ s ∈ a, a.position s.id = a.position p.id ∧ p.id ≤ s.id

namespace Recorded

variable {steps : List Step} {a b : Assembly} {st : Step}

/-- Nothing was kept of a unit that is younger than what stands at its position. -/
theorem not_kept (h : Recorded steps a) {id : Int32}
    (hyoung : ∀ s ∈ a, a.position s.id = a.position id → s.id < id) :
    ∀ p ∈ kept steps, p.id ≠ id := by
  intro p hp hid
  subst hid
  obtain ⟨s, hs, hpos, hle⟩ := h.present p hp
  exact Int32.lt_irrefl (Int32.lt_of_lt_of_le (hyoung s hs hpos) hle)

/-- A step that keeps nothing leaves what the slots hold, or opens blank ones. -/
theorem of_none (h : Recorded steps a) (hnone : st.kept? = none)
    (hslots : ∀ t ∈ b, (∃ s ∈ a, s.id = t.id ∧ ∀ i, s.payload? i = t.payload? i) ∨
      (({ id := t.id } : Slot).Like t ∧ ∀ p ∈ kept steps, p.id ≠ t.id))
    (hpresent : ∀ id, (∃ s ∈ a, a.position s.id = a.position id ∧ id ≤ s.id) →
      ∃ t ∈ b, b.position t.id = b.position id ∧ id ≤ t.id) :
    Recorded (steps ++ [st]) b where
  payload := by
    intro t ht i
    rw [kept_concat_of_none hnone]
    rcases hslots t ht with ⟨s, hs, hid, hsame⟩ | ⟨hblank, hnew⟩
    · rw [← hsame, ← hid]
      exact h.payload s hs i
    · rw [hblank.payload?_eq, (Slot.sound_blank t.id).payload?_of_unsized rfl,
        firstOf_eq_none hnew]
  present := by
    intro p hp
    rw [kept_concat_of_none hnone] at hp
    exact hpresent p.id (h.present p hp)

theorem refused (h : Recorded steps a) (ha : a.Sound) {p : Packet} (hp : a.Refuses p) :
    Recorded (steps ++ [a.step (.receive p)]) (a.receive p).2 := by
  refine h.of_none (kept?_of_refused hp.verdict) ?_ fun _ => (opening_receive ha p).exists_ge
  intro t ht
  exact Or.inl ⟨t, hp.mem_iff.mp ht, rfl, fun _ => rfl⟩

/-- What is kept goes to a place that was empty. -/
theorem takesIn (h : Recorded steps a) (ha : a.Sound) {p : Packet} {s : Slot}
    (ht : a.TakesIn p s) : Recorded (steps ++ [a.step (.receive p)]) (a.receive p).2 := by
  have hkept := kept_concat_of_takesIn ha ht steps
  have hid : (s.accept p).id = p.id := by rw [Slot.id_accept, ht.id_eq]
  have hbefore (i : Nat) : s.payload? i = firstOf (kept steps) p.id i := by
    rcases ht.place with hs | ⟨rfl, hyoung⟩
    · rw [← ht.id_eq]
      exact h.payload s hs i
    · rw [(Slot.sound_blank p.id).payload?_of_unsized rfl, firstOf_eq_none (h.not_kept hyoung)]
  refine ⟨?_, ?_⟩
  · intro t hmem i
    rw [receive_of_takesIn ha ht] at hmem
    rw [hkept, firstOf_append, firstOf_singleton]
    rcases (ht.mem_keepIn ha).mp hmem with rfl | ⟨hold, hpos⟩
    · rw [hid, ht.fits.payload?_accept (ht.sound_slot ha), hbefore]
      by_cases hi : i = p.index.toNat
      · have hempty : firstOf (kept steps) p.id p.index.toNat = none := by
          have hnot := ht.fits.empty
          rw [Slot.mem_filled, Slot.holds_eq, hbefore] at hnot
          simpa using hnot
        rw [hi, if_pos rfl, if_pos ⟨rfl, rfl⟩, hempty]
        rfl
      · have hne : ¬ (p.id = p.id ∧ p.index.toNat = i) := fun hc => hi hc.2.symm
        rw [if_neg hi, if_neg hne, Option.or_none]
    · have hne : ¬ (p.id = t.id ∧ p.index.toNat = i) := fun hc => hpos (by rw [hc.1])
      rw [if_neg hne, Option.or_none]
      exact h.payload t hold i
  · intro q hq
    rw [hkept, List.mem_append] at hq
    rcases hq with hold | hlast
    · exact (opening_receive ha p).exists_ge (h.present q hold)
    · rw [List.mem_singleton.mp hlast]
      refine ⟨s.accept p, ?_, by rw [hid], by rw [hid]; exact Int32.le_refl _⟩
      rw [receive_of_takesIn ha ht]
      exact (ht.mem_keepIn ha).mpr (Or.inl rfl)

theorem take (h : Recorded steps a) (ha : a.Sound) (id : Int32) :
    Recorded (steps ++ [a.step (.take id)]) (a.perform (.take id)).2 := by
  have hnone : (a.step (.take id)).kept? = none := rfl
  rcases perform_take ha.toPlaced id with hp | ⟨s, hs, -, -, -, hp⟩
  · rw [hp]
    exact h.of_none hnone (fun t ht => Or.inl ⟨t, ht, rfl, fun _ => rfl⟩) fun _ hid => hid
  · rw [hp]
    refine h.of_none hnone ?_ fun id hid => exists_ge_handOn ha.toPlaced hs hid
    intro t ht
    obtain ⟨u, hu, rfl⟩ := (mem_handOn ha.toPlaced hs).mp ht
    refine Or.inl ⟨u, hu, (id_settle a s.id u).symm, fun i => ?_⟩
    unfold settle
    split <;> rfl

theorem request (h : Recorded steps a) (ha : a.Sound) (now : Int) :
    Recorded (steps ++ [a.step (.request now)]) (a.perform (.request now)).2 := by
  have hopen := opening_request ha now
  refine h.of_none rfl ?_ fun _ => hopen.exists_ge
  intro t ht
  rcases old_or_blank_request ha now ht with ⟨s, hs, hlike⟩ | ⟨hnew, hblank⟩
  · exact Or.inl ⟨s, hs, hlike.id_eq.symm, fun i => (hlike.payload?_eq i).symm⟩
  · refine Or.inr ⟨hblank, h.not_kept ?_⟩
    rcases hopen.old_or_new t ht with ⟨s, hs, hid, -⟩ | ⟨-, -, hyoung⟩
    · exact absurd (mem_units.mpr ⟨s, hs, hid⟩) hnew
    · exact hyoung

/-- **A whole unit contains what was kept first at each of its places.** -/
theorem exists_pieces (h : Recorded steps a) {s : Slot} (hs : s ∈ a) (hsound : s.Sound)
    (hcomplete : s.isComplete = true) :
    ∃ pieces : List Bytes, pieces.flatten = s.contents ∧
      (List.range s.count).map (firstOf (kept steps) s.id) = pieces.map some := by
  obtain ⟨hpos, hfilled⟩ := hsound.isComplete_iff.mp hcomplete
  have hlength : s.cells.length = s.count := by
    rw [hsound.length_cells]
    omega
  have hall : ∀ i, i < s.cells.length → s.payload? i = some ((s.payload? i).getD []) := by
    intro i hi
    have hmem : i ∈ s.filled := by
      rw [hfilled, Finset.mem_range, ← hlength]
      exact hi
    obtain ⟨c, hc⟩ := Slot.mem_filled_iff_payload?.mp hmem
    rw [hc]
    rfl
  refine ⟨(List.range s.count).map fun i => (s.payload? i).getD [], ?_, ?_⟩
  · rw [Slot.contents_eq hall, hlength]
  · rw [List.map_map]
    refine List.map_congr_left fun i hi => ?_
    rw [List.mem_range, ← hlength] at hi
    rw [← h.payload s hs i]
    exact hall i hi

end Recorded

/-- **Every run of a ring is recorded.** -/
theorem recorded_run (channel : Channel) (limits : Limits) (calls : List Call) :
    Recorded ((empty channel limits).trace calls) ((empty channel limits).run calls) := by
  induction calls using List.reverseRecOn with
  | nil =>
      refine ⟨fun s hs => absurd hs (not_mem_empty channel limits s), ?_⟩
      intro p hp
      cases hp
  | append_singleton calls c ih =>
      have hsound := (sound_empty channel limits).run calls
      rw [trace_concat, run_concat]
      cases c with
      | receive p =>
          rcases receive_cases hsound p with hrefused | ⟨s, hs⟩
          · exact ih.refused hsound hrefused
          · exact ih.takesIn hsound hs
      | take id => exact ih.take hsound id
      | request now => exact ih.request hsound now

end Assembly

end Framecast
