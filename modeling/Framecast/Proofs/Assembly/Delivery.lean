/-
What is handed on is what was sent.

A `Sender` gives every unit one payload and cuts it into fragments.  An assembly is
run on these fragments, in any order, lost, repeated or resent, among packets that
cannot belong to the channel, with units being handed on and requests being made in
between.

The invariant is `Faithful`.  A slot holds the pieces of its unit at their places, and
the places it has filled are the indices that were accepted for the unit over the whole
run: a unit that has lost its slot never gets one again, since the slot went to a
younger unit and can only go to younger ones still.  So a unit becomes complete at the
call that accepts its last index, and at no other.
-/
import Mathlib.Data.Finset.Option
import Framecast.Proofs.Assembly.Run
import Framecast.Proofs.Packet.Fragments

namespace Framecast

namespace Assembly

/-- Who sends the units of one channel: a payload for each, and the most that one of
its fragments carries, such that the fragments are not too many. -/
structure Sender (limits : Limits) where
  payload : Int32 → Bytes
  limit : Int32 → Nat
  limit_pos : ∀ id, 1 ≤ limit id
  limit_le : ∀ id, limit id ≤ Packet.maxPayload
  count_le : ∀ id, fragmentCount (payload id).length (limit id) ≤ min limits.maxFragments 65535

namespace Sender

variable {limits : Limits}

/-- The number of fragments of a unit. -/
def count (sender : Sender limits) (id : Int32) : Nat :=
  fragmentCount (sender.payload id).length (sender.limit id)

/-- The indices of a unit. -/
def indices (sender : Sender limits) (id : Int32) : Finset Nat :=
  Finset.range (sender.count id)

/-- The packet is a fragment of a unit, sent for the first time or again. -/
def Sends (sender : Sender limits) (channel : Channel) (p : Packet) : Prop :=
  ∃ id, { p with resent := false } ∈
    fragments channel id (sender.payload id) (sender.limit id)

/-- What may happen to an assembly that listens to the sender. -/
def Allows (sender : Sender limits) (channel : Channel) : Call → Prop
  | .receive p => sender.Sends channel p ∨ (empty channel limits).admits p = false
  | .take _ => True
  | .request _ => True

theorem count_pos (sender : Sender limits) (id : Int32) : 0 < sender.count id :=
  fragmentCount_pos _ _

theorem indices_ne_empty (sender : Sender limits) (id : Int32) : sender.indices id ≠ ∅ :=
  Finset.nonempty_iff_ne_empty.mp ⟨0, Finset.mem_range.mpr (sender.count_pos id)⟩

/-- A packet that was sent says what its unit is made of. -/
theorem Sends.shape {sender : Sender limits} {channel : Channel} {p : Packet}
    (h : sender.Sends channel p) :
    p.count.toNat = sender.count p.id ∧
      p.payload = piece (sender.payload p.id) (sender.limit p.id) p.index.toNat := by
  obtain ⟨id, hmem⟩ := h
  obtain ⟨i, hi, heq⟩ := mem_fragments.mp hmem
  have hle := sender.count_le id
  have hid : p.id = id := congrArg Packet.id heq
  have hindex :
      p.index = (fragmentAt channel id (sender.payload id) (sender.limit id) i).index := by
    rw [← heq]
  have hcount :
      p.count = (fragmentAt channel id (sender.payload id) (sender.limit id) i).count := by
    rw [← heq]
  have hpayload : p.payload = piece (sender.payload id) (sender.limit id) i :=
    congrArg Packet.payload heq
  rw [hid, hindex, hcount, hpayload,
    toNat_index_fragmentAt channel id _ _ i (by omega),
    toNat_count_fragmentAt channel id _ _ i (by omega)]
  exact ⟨rfl, rfl⟩

end Sender

/-! ### What a run accepted -/

/-- The index of unit `id` that a step accepted, if it did. -/
def Step.accepted? (id : Int32) (st : Step) : Option Nat :=
  match st.call, st.answer with
  | .receive p, .verdict v =>
    if p.id = id ∧ (v = .stored ∨ v = .completed) then some p.index.toNat else none
  | _, _ => none

/-- Whether a step completed unit `id`. -/
def Step.completes (id : Int32) (st : Step) : Bool :=
  match st.call, st.answer with
  | .receive p, .verdict v => p.id = id ∧ v = .completed
  | _, _ => false

/-- The indices of a unit that were accepted. -/
def accepted (steps : List Step) (id : Int32) : Finset Nat :=
  (steps.filterMap (Step.accepted? id)).toFinset

/-- How often a unit was completed. -/
def completions (steps : List Step) (id : Int32) : Nat :=
  steps.countP (Step.completes id)

theorem accepted_concat (steps : List Step) (st : Step) (id : Int32) :
    accepted (steps ++ [st]) id = accepted steps id ∪ (st.accepted? id).toFinset := by
  rw [accepted, List.filterMap_append, List.toFinset_append, ← accepted]
  congr 1
  cases h : st.accepted? id with
  | none => simp [h]
  | some i => simp [h]

theorem completions_concat (steps : List Step) (st : Step) (id : Int32) :
    completions (steps ++ [st]) id = completions steps id + if st.completes id then 1 else 0 := by
  simp [completions, List.countP_append, List.countP_singleton]

/-- A step that accepts nothing of any unit. -/
def Step.Idle (st : Step) : Prop :=
  ∀ id, st.accepted? id = none ∧ st.completes id = false

theorem Step.Idle.accepted_concat {st : Step} (h : st.Idle) (steps : List Step) (id : Int32) :
    accepted (steps ++ [st]) id = accepted steps id := by
  rw [Assembly.accepted_concat, (h id).1]
  simp

theorem Step.Idle.completions_concat {st : Step} (h : st.Idle) (steps : List Step)
    (id : Int32) : completions (steps ++ [st]) id = completions steps id := by
  rw [Assembly.completions_concat, (h id).2]
  rfl

theorem idle_take {a : Assembly} (h : a.Placed) (id : Int32) : (a.step (.take id)).Idle := by
  intro x
  rcases perform_take h id with hp | ⟨s, -, -, -, -, hp⟩
  · simp [step, hp, Step.accepted?, Step.completes]
  · simp [step, hp, Step.accepted?, Step.completes]

theorem idle_request (a : Assembly) (now : Int) : (a.step (.request now)).Idle := by
  intro x
  simp [step, perform, Step.accepted?, Step.completes]

theorem idle_refused {a : Assembly} {p : Packet} (h : Refusal (a.receive p).1) :
    (a.step (.receive p)).Idle := by
  intro x
  rcases h with hv | hv | hv
  · simp [step, perform, Step.accepted?, Step.completes, hv]
  · simp [step, perform, Step.accepted?, Step.completes, hv]
  · simp [step, perform, Step.accepted?, Step.completes, hv]

theorem accepted_of_takesIn {a : Assembly} {p : Packet} {s : Slot} (ha : a.Sound)
    (ht : a.TakesIn p s) (steps : List Step) :
    accepted (steps ++ [a.step (.receive p)]) p.id =
      insert p.index.toNat (accepted steps p.id) := by
  have hstep : (a.step (.receive p)).accepted? p.id = some p.index.toNat := by
    simp only [step, perform, receive_of_takesIn ha ht, Step.accepted?, keptVerdict, true_and]
    split <;> simp
  rw [accepted_concat, hstep, Finset.insert_eq, Finset.union_comm]
  rfl

theorem completed_iff_of_takesIn {a : Assembly} {p : Packet} {s : Slot} (ha : a.Sound)
    (ht : a.TakesIn p s) : (a.receive p).1 = .completed ↔ (s.accept p).isComplete = true := by
  rw [receive_of_takesIn ha ht]
  show keptVerdict p s = .completed ↔ _
  unfold keptVerdict
  split
  · rename_i hc
    exact ⟨fun _ => hc, fun _ => rfl⟩
  · rename_i hc
    constructor
    · intro hv
      cases hv
    · intro hv
      exact absurd hv hc

theorem accepted_of_ne {a : Assembly} {p : Packet} {id : Int32} (h : p.id ≠ id)
    (steps : List Step) : accepted (steps ++ [a.step (.receive p)]) id = accepted steps id := by
  have hnone : (a.step (.receive p)).accepted? id = none := by
    simp [step, perform, Step.accepted?, h]
  rw [accepted_concat, hnone]
  simp

/-! ### The invariant -/

/-- The slots hold what was sent, and as much of it as was accepted. -/
structure Faithful {limits : Limits} (sender : Sender limits) (steps : List Step)
    (a : Assembly) : Prop where
  count : ∀ s ∈ a, s.count = 0 ∨ s.count = sender.count s.id
  payload : ∀ s ∈ a, ∀ i b, s.payload? i = some b →
    b = piece (sender.payload s.id) (sender.limit s.id) i
  filled : ∀ s ∈ a, s.filled = accepted steps s.id
  /-- A unit of which something was accepted has its slot, or lost it to a younger one. -/
  present : ∀ id, accepted steps id ≠ ∅ → ∃ s ∈ a, a.position s.id = a.position id ∧ id ≤ s.id
  /-- A unit was completed once if all of it was accepted, and never before. -/
  once : ∀ id, completions steps id = if accepted steps id = sender.indices id then 1 else 0

namespace Faithful

variable {limits : Limits} {sender : Sender limits} {steps : List Step} {a b : Assembly}

/-- Nothing was accepted of a unit that is younger than what stands at its position. -/
theorem accepted_eq_empty (h : Faithful sender steps a) {id : Int32}
    (hyoung : ∀ s ∈ a, a.position s.id = a.position id → s.id < id) :
    accepted steps id = ∅ := by
  by_contra hne
  obtain ⟨s, hs, hpos, hle⟩ := h.present id hne
  exact Int32.lt_irrefl (Int32.lt_of_lt_of_le (hyoung s hs hpos) hle)

/-- A complete slot contains the payload of its unit. -/
theorem contents_eq (h : Faithful sender steps a) {s : Slot} (hs : s ∈ a) (hsound : s.Sound)
    (hcomplete : s.isComplete = true) : s.contents = sender.payload s.id := by
  obtain ⟨hpos, hfilled⟩ := hsound.isComplete_iff.mp hcomplete
  have hcount : s.count = sender.count s.id := (h.count s hs).resolve_left (Nat.ne_of_gt hpos)
  have hlength : s.cells.length = sender.count s.id := by
    rw [hsound.length_cells, hcount]
    have := sender.count_pos s.id
    omega
  have hall : ∀ i, i < s.cells.length →
      s.payload? i = some (piece (sender.payload s.id) (sender.limit s.id) i) := by
    intro i hi
    have hmem : i ∈ s.filled := by
      rw [hfilled, hcount, Finset.mem_range, ← hlength]
      exact hi
    obtain ⟨b, hb⟩ := Slot.mem_filled_iff_payload?.mp hmem
    rw [hb, h.payload s hs i b hb]
  rw [Slot.contents_eq hall, hlength]
  exact flatten_pieces _ _

/-- What is left of a slot's contents in a step that accepts nothing. -/
theorem of_idle (h : Faithful sender steps a) {st : Step} (hidle : st.Idle)
    (hslots : ∀ t ∈ b, (∃ s ∈ a, s.id = t.id ∧ s.count = t.count ∧
        (∀ i, s.payload? i = t.payload? i)) ∨
      (({ id := t.id } : Slot).Like t ∧ accepted steps t.id = ∅))
    (hpresent : ∀ id, (∃ s ∈ a, a.position s.id = a.position id ∧ id ≤ s.id) →
      ∃ t ∈ b, b.position t.id = b.position id ∧ id ≤ t.id) :
    Faithful sender (steps ++ [st]) b where
  count := by
    intro t ht
    rcases hslots t ht with ⟨s, hs, hid, hcount, -⟩ | ⟨hblank, -⟩
    · rw [← hid, ← hcount]
      exact h.count s hs
    · exact Or.inl hblank.count_eq
  payload := by
    intro t ht i c hc
    rcases hslots t ht with ⟨s, hs, hid, -, hsame⟩ | ⟨hblank, -⟩
    · rw [← hid]
      rw [← hsame] at hc
      exact h.payload s hs i c hc
    · rw [hblank.payload?_eq, (Slot.sound_blank t.id).payload?_of_unsized rfl] at hc
      cases hc
  filled := by
    intro t ht
    rw [hidle.accepted_concat]
    rcases hslots t ht with ⟨s, hs, hid, -, hsame⟩ | ⟨hblank, hempty⟩
    · rw [← hid, ← h.filled s hs]
      ext i
      rw [Slot.mem_filled_iff_payload?, Slot.mem_filled_iff_payload?, hsame]
    · rw [hblank.filled_eq, hempty, (Slot.sound_blank t.id).filled_of_unsized rfl]
  present := by
    intro id hne
    rw [hidle.accepted_concat] at hne
    exact hpresent id (h.present id hne)
  once := by
    intro id
    rw [hidle.completions_concat, hidle.accepted_concat]
    exact h.once id

theorem take (h : Faithful sender steps a) (ha : a.Sound) (id : Int32) :
    Faithful sender (steps ++ [a.step (.take id)]) (a.perform (.take id)).2 := by
  have hidle := idle_take ha.toPlaced id
  rcases perform_take ha.toPlaced id with hp | ⟨s, hs, -, -, -, hp⟩
  · rw [hp]
    refine h.of_idle hidle ?_ fun _ hid => hid
    intro t ht
    exact Or.inl ⟨t, ht, rfl, rfl, fun _ => rfl⟩
  · rw [hp]
    refine h.of_idle hidle ?_ ?_
    · intro t ht
      obtain ⟨u, hu, rfl⟩ := (mem_handOn ha.toPlaced hs).mp ht
      refine Or.inl ⟨u, hu, (id_settle a s.id u).symm, ?_, ?_⟩
      · unfold settle
        split <;> rfl
      · intro i
        unfold settle
        split <;> rfl
    · intro id hid
      exact exists_ge_handOn ha.toPlaced hs hid

theorem request (h : Faithful sender steps a) (ha : a.Sound) (now : Int) :
    Faithful sender (steps ++ [a.step (.request now)]) (a.perform (.request now)).2 := by
  have hopen := opening_request ha now
  refine h.of_idle (idle_request a now) ?_ fun _ => hopen.exists_ge
  intro t ht
  rcases old_or_blank_request ha now ht with ⟨s, hs, hlike⟩ | ⟨hnew, hblank⟩
  · exact Or.inl ⟨s, hs, hlike.id_eq.symm, hlike.count_eq.symm,
      fun i => (hlike.payload?_eq i).symm⟩
  · refine Or.inr ⟨hblank, h.accepted_eq_empty ?_⟩
    rcases hopen.old_or_new t ht with ⟨s, hs, hid, -⟩ | ⟨-, -, hyoung⟩
    · exact absurd (mem_units.mpr ⟨s, hs, hid⟩) hnew
    · exact hyoung

theorem refused (h : Faithful sender steps a) (ha : a.Sound) {p : Packet} (hp : a.Refuses p) :
    Faithful sender (steps ++ [a.step (.receive p)]) (a.receive p).2 := by
  refine h.of_idle (idle_refused hp.verdict) ?_ fun _ => (opening_receive ha p).exists_ge
  intro t ht
  exact Or.inl ⟨t, hp.mem_iff.mp ht, rfl, rfl, fun _ => rfl⟩

/-! ### A fragment that is kept -/

section Kept

variable {channel : Channel} {p : Packet} {s : Slot}

/-- What the slot has filled is what was accepted of the unit so far. -/
theorem accepted_before (h : Faithful sender steps a) (ht : a.TakesIn p s) :
    accepted steps p.id = s.filled := by
  rcases ht.place with hs | ⟨rfl, hyoung⟩
  · rw [← ht.id_eq]
    exact (h.filled s hs).symm
  · rw [h.accepted_eq_empty hyoung, (Slot.sound_blank p.id).filled_of_unsized rfl]

theorem accepted_after (h : Faithful sender steps a) (ha : a.Sound) (ht : a.TakesIn p s) :
    accepted (steps ++ [a.step (.receive p)]) p.id = (s.accept p).filled := by
  rw [accepted_of_takesIn ha ht, h.accepted_before ht,
    ht.fits.filled_accept (ht.sound_slot ha)]

/-- The index is new, so not all of the unit was accepted before. -/
theorem accepted_ne_indices (h : Faithful sender steps a) (hsent : sender.Sends channel p)
    (ht : a.TakesIn p s) : accepted steps p.id ≠ sender.indices p.id := by
  intro hall
  refine ht.fits.empty ?_
  rw [← h.accepted_before ht, hall, Sender.indices, Finset.mem_range, ← hsent.shape.1]
  exact ht.fits.index_lt

/-- **The packet completes its unit exactly if all of it is accepted then.** -/
theorem completed_iff_accepted (h : Faithful sender steps a) (ha : a.Sound)
    (hsent : sender.Sends channel p) (ht : a.TakesIn p s) :
    (a.receive p).1 = .completed ↔
      accepted (steps ++ [a.step (.receive p)]) p.id = sender.indices p.id := by
  have hsound := ht.sound_slot ha
  have hsize : (s.accept p).count = sender.count p.id := by
    rw [ht.fits.count_accept hsound, hsent.shape.1]
  rw [completed_iff_of_takesIn ha ht, (ht.fits.sound_accept hsound).isComplete_iff, hsize,
    h.accepted_after ha ht]
  exact and_iff_right (sender.count_pos p.id)

theorem once_kept (h : Faithful sender steps a) (ha : a.Sound) (hsent : sender.Sends channel p)
    (ht : a.TakesIn p s) (id : Int32) :
    completions (steps ++ [a.step (.receive p)]) id =
      if accepted (steps ++ [a.step (.receive p)]) id = sender.indices id then 1 else 0 := by
  rw [completions_concat, h.once id]
  by_cases heq : p.id = id
  · subst heq
    have hiff := h.completed_iff_accepted ha hsent ht
    rw [if_neg (h.accepted_ne_indices hsent ht), Nat.zero_add]
    by_cases hall : accepted (steps ++ [a.step (.receive p)]) p.id = sender.indices p.id
    · have hv := hiff.mpr hall
      rw [if_pos hall]
      simp [step, perform, Step.completes, hv]
    · have hv : ¬ (a.receive p).1 = .completed := fun hc => hall (hiff.mp hc)
      rw [if_neg hall]
      simp [step, perform, Step.completes, hv]
  · rw [accepted_of_ne heq]
    simp [step, perform, Step.completes, heq]

/-- A fragment of the sender that is kept. -/
theorem kept (h : Faithful sender steps a) (ha : a.Sound) (hsent : sender.Sends channel p)
    (ht : a.TakesIn p s) :
    Faithful sender (steps ++ [a.step (.receive p)]) (a.receive p).2 := by
  obtain ⟨hcount, hpayload⟩ := hsent.shape
  have hsound := ht.sound_slot ha
  have hid : (s.accept p).id = p.id := by rw [Slot.id_accept, ht.id_eq]
  have hslots {t : Slot} (hmem : t ∈ (a.receive p).2) :
      t = s.accept p ∨ (t ∈ a ∧ a.position t.id ≠ a.position p.id) := by
    rw [receive_of_takesIn ha ht] at hmem
    exact (ht.mem_keepIn ha).mp hmem
  exact
    { count := by
        intro t hmem
        rcases hslots hmem with rfl | ⟨hold, -⟩
        · rw [hid, ht.fits.count_accept hsound]
          exact Or.inr hcount
        · exact h.count t hold
      payload := by
        intro t hmem i c hc
        rcases hslots hmem with rfl | ⟨hold, -⟩
        · rw [hid]
          rw [ht.fits.payload?_accept hsound] at hc
          split at hc
          · rename_i hi
            rw [hi, ← hpayload]
            simpa using hc.symm
          · -- What stood there before was sent as well, if anything stood there.
            rcases ht.place with hs | ⟨rfl, -⟩
            · rw [← ht.id_eq]
              exact h.payload s hs i c hc
            · rw [(Slot.sound_blank p.id).payload?_of_unsized rfl] at hc
              cases hc
        · exact h.payload t hold i c hc
      filled := by
        intro t hmem
        rcases hslots hmem with rfl | ⟨hold, hpos⟩
        · rw [hid, h.accepted_after ha ht]
        · rw [accepted_of_ne fun hc => hpos (by rw [hc])]
          exact h.filled t hold
      present := by
        intro id hne
        by_cases heq : p.id = id
        · subst heq
          refine ⟨s.accept p, ?_, by rw [hid], by rw [hid]; exact Int32.le_refl _⟩
          rw [receive_of_takesIn ha ht]
          exact (ht.mem_keepIn ha).mpr (Or.inl rfl)
        · rw [accepted_of_ne heq] at hne
          exact (opening_receive ha p).exists_ge (h.present id hne)
      once := h.once_kept ha hsent ht }

end Kept

end Faithful

/-! ### Whole runs -/

section Runs

variable {channel : Channel} {limits : Limits} {sender : Sender limits}

theorem faithful_empty (sender : Sender limits) : Faithful sender [] (empty channel limits) where
  count s hs := absurd hs (not_mem_empty channel limits s)
  payload s hs := absurd hs (not_mem_empty channel limits s)
  filled s hs := absurd hs (not_mem_empty channel limits s)
  present _ hne := absurd rfl hne
  once id := (if_neg fun hc => sender.indices_ne_empty id hc.symm).symm

/-- A packet that is allowed is refused, or it was sent and is kept. -/
theorem refused_or_kept {calls : List Call} {p : Packet}
    (hp : sender.Allows channel (.receive p)) :
    ((empty channel limits).run calls).Refuses p ∨
      sender.Sends channel p ∧ ∃ s, ((empty channel limits).run calls).TakesIn p s := by
  have hsound := (sound_empty channel limits).run calls
  rcases receive_cases hsound p with hrefused | ⟨s, hs⟩
  · exact Or.inl hrefused
  · rcases hp with hsent | hnot
    · exact Or.inr ⟨hsent, s, hs⟩
    · have hadmits := hs.admits
      rw [admits_run (sound_empty channel limits), hnot] at hadmits
      exact Bool.noConfusion hadmits

/-- **Every run on what a sender sends is faithful to it.** -/
theorem faithful_run {calls : List Call} (h : ∀ c ∈ calls, sender.Allows channel c) :
    Faithful sender ((empty channel limits).trace calls) ((empty channel limits).run calls) := by
  -- From the end, since what was accepted depends on the whole run so far.
  induction calls using List.reverseRecOn with
  | nil => exact faithful_empty sender
  | append_singleton calls c ih =>
      have hsound := (sound_empty channel limits).run calls
      have hprev := ih fun d hd => h d (List.mem_append_left _ hd)
      have hc := h c (by simp)
      rw [trace_concat, run_concat]
      cases c with
      | receive p =>
          rcases refused_or_kept hc with hrefused | ⟨hsent, s, hs⟩
          · exact hprev.refused hsound hrefused
          · exact hprev.kept hsound hsent hs
      | take id => exact hprev.take hsound id
      | request now => exact hprev.request hsound now

/-- **A packet completes a unit exactly if it is the one whose index was missing last.** -/
theorem completed_iff {calls : List Call} (h : ∀ c ∈ calls, sender.Allows channel c)
    {p : Packet} (hp : sender.Allows channel (.receive p)) (id : Int32) :
    ((((empty channel limits).run calls).receive p).1 = .completed ∧ p.id = id) ↔
      accepted ((empty channel limits).trace calls) id ≠ sender.indices id ∧
        accepted ((empty channel limits).trace (calls ++ [.receive p])) id =
          sender.indices id := by
  have hsound := (sound_empty channel limits).run calls
  have hprev := faithful_run h
  rw [trace_concat]
  rcases refused_or_kept hp with hrefused | ⟨hsent, s, hs⟩
  · rw [(idle_refused hrefused.verdict).accepted_concat]
    constructor
    · rintro ⟨hc, -⟩
      exact absurd hc hrefused.verdict.ne_completed
    · rintro ⟨hne, heq⟩
      exact absurd heq hne
  · have hiff := hprev.completed_iff_accepted hsound hsent hs
    constructor
    · rintro ⟨hc, rfl⟩
      exact ⟨hprev.accepted_ne_indices hsent hs, hiff.mp hc⟩
    · rintro ⟨hne, heq⟩
      by_cases hid : p.id = id
      · subst hid
        exact ⟨hiff.mpr heq, rfl⟩
      · rw [accepted_of_ne hid] at heq
        exact absurd heq hne

theorem take?_of_completed {calls : List Call} (h : ∀ c ∈ calls, sender.Allows channel c)
    {p : Packet} (hp : sender.Allows channel (.receive p))
    (hc : (((empty channel limits).run calls).receive p).1 = .completed) :
    ∃ c, (((empty channel limits).run calls).receive p).2.take? p.id =
      some (sender.payload p.id, c) := by
  have hsound := (sound_empty channel limits).run calls
  have hprev := faithful_run h
  rcases refused_or_kept hp with hrefused | ⟨hsent, s, hs⟩
  · exact absurd hc hrefused.verdict.ne_completed
  · have hnext := hprev.kept hsound hsent hs
    have hsound' := hsound.receive p
    have hmem : s.accept p ∈ (((empty channel limits).run calls).receive p).2 := by
      rw [receive_of_takesIn hsound hs]
      exact (hs.mem_keepIn hsound).mpr (Or.inl rfl)
    have hid : (s.accept p).id = p.id := by rw [Slot.id_accept, hs.id_eq]
    have hcomplete := (completed_iff_of_takesIn hsound hs).mp hc
    refine ⟨_, (take?_eq_some hsound'.toPlaced).mpr
      ⟨s.accept p, hmem, hid, ?_, hcomplete, ?_, rfl⟩⟩
    · rw [Slot.taken_accept]
      exact hs.not_taken hsound
    · rw [hnext.contents_eq hmem (hsound'.slot _ hmem) hcomplete, hid]

theorem eq_payload_of_take? {calls : List Call} (h : ∀ c ∈ calls, sender.Allows channel c)
    {id : Int32} {b : Bytes} {c : Assembly}
    (htake : ((empty channel limits).run calls).take? id = some (b, c)) :
    b = sender.payload id := by
  have hsound := (sound_empty channel limits).run calls
  obtain ⟨s, hs, rfl, -, hcomplete, rfl, -⟩ := (take?_eq_some hsound.toPlaced).mp htake
  exact (faithful_run h).contents_eq hs (hsound.slot s hs) hcomplete

theorem completions_le_one {calls : List Call} (h : ∀ c ∈ calls, sender.Allows channel c)
    (id : Int32) : completions ((empty channel limits).trace calls) id ≤ 1 := by
  rw [(faithful_run h).once id]
  split <;> omega

end Runs

/--
**What is handed on is exactly what was sent.**  After any run on the fragments of a
sender, in any order, with fragments lost, repeated and resent, among packets that
cannot belong to the channel:

* what is handed on under a unit is its payload;
* a packet completes a unit exactly if the indices accepted of it become all of its
  indices by this packet, and then the unit can be handed on at once;
* no unit was completed twice.
-/
theorem delivers_what_was_sent (channel : Channel) (limits : Limits) (sender : Sender limits)
    (calls : List Call) (hcalls : ∀ c ∈ calls, sender.Allows channel c) :
    (∀ id b c, ((empty channel limits).run calls).take? id = some (b, c) →
      b = sender.payload id) ∧
    (∀ p, sender.Allows channel (.receive p) →
      (∀ id, ((((empty channel limits).run calls).receive p).1 = .completed ∧ p.id = id) ↔
        accepted ((empty channel limits).trace calls) id ≠ sender.indices id ∧
          accepted ((empty channel limits).trace (calls ++ [.receive p])) id =
            sender.indices id) ∧
      ((((empty channel limits).run calls).receive p).1 = .completed →
        ∃ c, (((empty channel limits).run calls).receive p).2.take? p.id =
          some (sender.payload p.id, c))) ∧
    ∀ id, completions ((empty channel limits).trace calls) id ≤ 1 := by
  refine ⟨fun id b c => eq_payload_of_take? hcalls, fun p hp => ?_, completions_le_one hcalls⟩
  exact ⟨completed_iff hcalls hp, take?_of_completed hcalls hp⟩

/-- Three bytes as every unit, at most two of them in a fragment. -/
def threeBytes : Sender { size := 4 } where
  payload _ := [1, 2, 3]
  limit _ := 2
  limit_pos _ := by decide
  limit_le _ := by decide
  count_le _ := by decide

/-- The second fragment of unit 7, a round of requests, a packet of another channel. -/
def threeBytesCalls : List Call :=
  [.receive { id := 7, index := 1, count := 2, payload := [3] },
    .request 5,
    .receive { channel := .audio, id := 7, count := 2, payload := [9] }]

/-- The first fragment of unit 7, sent again, completes it. -/
theorem delivers_three_bytes :
    ∃ c, (((empty .video { size := 4 }).run threeBytesCalls).receive
        { id := 7, count := 2, resent := true, payload := [1, 2] }).2.take? 7 =
      some ([1, 2, 3], c) := by
  have hcalls : ∀ c ∈ threeBytesCalls, threeBytes.Allows .video c := by
    intro c hc
    simp only [threeBytesCalls, List.mem_cons, List.not_mem_nil, or_false] at hc
    rcases hc with rfl | rfl | rfl
    · exact Or.inl ⟨7, by decide⟩
    · exact trivial
    · exact Or.inr (by decide)
  have hlast : threeBytes.Allows .video
      (.receive { id := 7, count := 2, resent := true, payload := [1, 2] }) :=
    Or.inl ⟨7, by decide⟩
  exact ((delivers_what_was_sent .video _ threeBytes _ hcalls).2.1 _ hlast).2 (by decide)

end Assembly

end Framecast
