/-
How far an assembly has seen.

The newest and the oldest unit are kept as two fields that are only ever compared and
replaced, and so is the highest index of a slot.  `Extent` says what they come to after
any run, whatever was received in it: the newest unit is the greatest one of which
something was accepted, the oldest is the least, and the highest index of a slot is the
greatest place that is filled.
-/
import Mathlib.Data.Finset.Lattice.Fold
import Mathlib.Order.Lattice.Nat
import Framecast.Proofs.Assembly.Delivery

namespace Framecast

namespace Slot

/-- The highest index is the greatest place that is filled, zero if none is. -/
def Topped (s : Slot) : Prop :=
  s.highest = s.filled.sup fun i => i

theorem topped_blank (id : Int32) : ({ id } : Slot).Topped := rfl

namespace Topped

variable {s t : Slot} {p : Packet}

theorem accept (h : s.Topped) (hs : s.Sound) (hf : s.Fits p) : (s.accept p).Topped := by
  have hhighest : (s.accept p).highest = max s.highest p.index.toNat := by
    unfold Slot.accept
    split <;> rfl
  unfold Topped at h ⊢
  rw [hhighest, hf.filled_accept hs, Finset.sup_insert, h]
  exact Nat.max_comm _ _

theorem like (h : s.Topped) (hlike : s.Like t) : t.Topped := by
  have hhighest : t.highest = s.highest := by rw [hlike.rest]
  unfold Topped at h ⊢
  rw [hlike.filled_eq, hhighest, h]

theorem le (h : s.Topped) {i : Nat} (hi : i ∈ s.filled) : i ≤ s.highest := by
  rw [h]
  exact Finset.le_sup (f := fun i => i) hi

theorem highest_mem (h : s.Topped) (hne : s.filled ≠ ∅) : s.highest ∈ s.filled := by
  obtain ⟨i, hi, htop⟩ :=
    Finset.exists_mem_eq_sup s.filled (Finset.nonempty_iff_ne_empty.mpr hne) fun i => i
  rw [h, htop]
  exact hi

end Topped

end Slot

namespace Assembly

/-- What the newest unit, the oldest one and the highest indices come to. -/
structure Extent (steps : List Step) (a : Assembly) : Prop where
  newest_mem : ∀ n, a.newest = some n → accepted steps n ≠ ∅
  le_newest : ∀ id, accepted steps id ≠ ∅ → ∃ n, a.newest = some n ∧ id ≤ n
  oldest_mem : ∀ m, a.oldest = some m → accepted steps m ≠ ∅
  oldest_le : ∀ id, accepted steps id ≠ ∅ → ∃ m, a.oldest = some m ∧ m ≤ id
  topped : ∀ s ∈ a, s.Topped

theorem mem_accepted_of_takesIn {a : Assembly} {p : Packet} {s : Slot} (ha : a.Sound)
    (ht : a.TakesIn p s) (steps : List Step) {id : Int32} {i : Nat} :
    i ∈ accepted (steps ++ [a.step (.receive p)]) id ↔
      i ∈ accepted steps id ∨ (id, i) = (p.id, p.index.toNat) := by
  by_cases hid : id = p.id
  · subst hid
    rw [accepted_of_takesIn ha ht, Finset.mem_insert]
    simp [or_comm]
  · rw [accepted_of_ne fun hc => hid hc.symm]
    simp [hid]

theorem accepted_ne_empty_of_takesIn {a : Assembly} {p : Packet} {s : Slot} (ha : a.Sound)
    (ht : a.TakesIn p s) (steps : List Step) (id : Int32) :
    accepted (steps ++ [a.step (.receive p)]) id ≠ ∅ ↔ id = p.id ∨ accepted steps id ≠ ∅ := by
  simp only [← Finset.nonempty_iff_ne_empty, Finset.Nonempty, mem_accepted_of_takesIn ha ht,
    Prod.mk.injEq, exists_or, exists_and_left, exists_eq, and_true, or_comm]

namespace Extent

variable {steps : List Step} {a b : Assembly} {st : Step}

theorem empty (channel : Channel) (limits : Limits) : Extent [] (Assembly.empty channel limits) where
  newest_mem n hn := by cases hn
  le_newest _ hne := absurd rfl hne
  oldest_mem m hm := by cases hm
  oldest_le _ hne := absurd rfl hne
  topped s hs := absurd hs (not_mem_empty channel limits s)

theorem le_of_newest (h : Extent steps a) {n id : Int32} (hn : a.newest = some n)
    (hid : accepted steps id ≠ ∅) : id ≤ n := by
  obtain ⟨n', hn', hle⟩ := h.le_newest id hid
  rw [hn, Option.some.injEq] at hn'
  rw [hn']
  exact hle

theorem le_of_oldest (h : Extent steps a) {m id : Int32} (hm : a.oldest = some m)
    (hid : accepted steps id ≠ ∅) : m ≤ id := by
  obtain ⟨m', hm', hle⟩ := h.oldest_le id hid
  rw [hm, Option.some.injEq] at hm'
  rw [hm']
  exact hle

/-- A step that accepts nothing moves neither end. -/
theorem of_idle (h : Extent steps a) (hidle : st.Idle) (hnewest : b.newest = a.newest)
    (holdest : b.oldest = a.oldest) (htopped : ∀ t ∈ b, t.Topped) :
    Extent (steps ++ [st]) b where
  newest_mem := by
    intro n hn
    rw [hidle.accepted_concat]
    exact h.newest_mem n (hnewest ▸ hn)
  le_newest := by
    intro id hid
    rw [hidle.accepted_concat] at hid
    rw [hnewest]
    exact h.le_newest id hid
  oldest_mem := by
    intro m hm
    rw [hidle.accepted_concat]
    exact h.oldest_mem m (holdest ▸ hm)
  oldest_le := by
    intro id hid
    rw [hidle.accepted_concat] at hid
    rw [holdest]
    exact h.oldest_le id hid
  topped := htopped

theorem refused (h : Extent steps a) {p : Packet} (hp : a.Refuses p) :
    Extent (steps ++ [a.step (.receive p)]) (a.receive p).2 := by
  refine h.of_idle (idle_refused hp.verdict) ?_ ?_ fun t ht => h.topped t (hp.mem_iff.mp ht)
  · rcases hp.rest with hr | hr
    · rw [hr]
    · rw [hr]
      rfl
  · rcases hp.rest with hr | hr
    · rw [hr]
    · rw [hr]
      rfl

/-- A packet that is kept moves the ends as far as its unit. -/
theorem kept (h : Extent steps a) (ha : a.Sound) {p : Packet} {s : Slot} (ht : a.TakesIn p s) :
    Extent (steps ++ [a.step (.receive p)]) (a.receive p).2 := by
  have hne := accepted_ne_empty_of_takesIn ha ht steps
  have hreceive : (a.receive p).2 = a.keepIn p s := by rw [receive_of_takesIn ha ht]
  have hnewest : (a.keepIn p s).newest =
      some (a.newest.elim p.id fun n => if n < p.id then p.id else n) := by
    simp only [keepIn, makeRoom_eq, noteKept, put, countSkipped]
    cases a.newest <;> rfl
  have holdest : (a.keepIn p s).oldest =
      some (a.oldest.elim p.id fun m => if p.id < m then p.id else m) := by
    simp only [keepIn, makeRoom_eq, noteKept, put, countSkipped]
    cases a.oldest <;> rfl
  rw [hreceive]
  refine ⟨?_, ?_, ?_, ?_, ?_⟩
  · intro n hn
    rw [hne]
    rw [hnewest, Option.some.injEq] at hn
    cases hold : a.newest with
    | none =>
        rw [hold] at hn
        exact Or.inl hn.symm
    | some m =>
        simp only [hold, Option.elim_some] at hn
        split at hn
        · exact Or.inl hn.symm
        · exact Or.inr (hn ▸ h.newest_mem m hold)
  · intro id hid
    refine ⟨_, hnewest, ?_⟩
    cases hold : a.newest with
    | none =>
        rcases (hne id).mp hid with rfl | hprev
        · exact Int32.le_refl _
        · obtain ⟨n, hn, -⟩ := h.le_newest id hprev
          rw [hold] at hn
          cases hn
    | some m =>
        have hprev := ((hne id).mp hid).imp_right (h.le_of_newest hold)
        simp only [Option.elim_some, Int32.le_iff_toInt_le, Int32.lt_iff_toInt_lt] at hprev ⊢
        rcases hprev with rfl | hle
        · split <;> omega
        · split <;> omega
  · intro m hm
    rw [hne]
    rw [holdest, Option.some.injEq] at hm
    cases hold : a.oldest with
    | none =>
        rw [hold] at hm
        exact Or.inl hm.symm
    | some n =>
        simp only [hold, Option.elim_some] at hm
        split at hm
        · exact Or.inl hm.symm
        · exact Or.inr (hm ▸ h.oldest_mem n hold)
  · intro id hid
    refine ⟨_, holdest, ?_⟩
    cases hold : a.oldest with
    | none =>
        rcases (hne id).mp hid with rfl | hprev
        · exact Int32.le_refl _
        · obtain ⟨n, hn, -⟩ := h.oldest_le id hprev
          rw [hold] at hn
          cases hn
    | some m =>
        have hprev := ((hne id).mp hid).imp_right (h.le_of_oldest hold)
        simp only [Option.elim_some, Int32.le_iff_toInt_le, Int32.lt_iff_toInt_lt] at hprev ⊢
        rcases hprev with rfl | hle
        · split <;> omega
        · split <;> omega
  · intro t hmem
    rcases (ht.mem_keepIn ha).mp hmem with rfl | ⟨hold, -⟩
    · have hs : s.Topped := by
        rcases ht.place with hold | ⟨rfl, -⟩
        · exact h.topped s hold
        · exact Slot.topped_blank p.id
      exact hs.accept (ht.sound_slot ha) ht.fits
    · exact h.topped t hold

theorem take (h : Extent steps a) (ha : a.Sound) (id : Int32) :
    Extent (steps ++ [a.step (.take id)]) (a.perform (.take id)).2 := by
  have hidle := idle_take ha.toPlaced id
  rcases perform_take ha.toPlaced id with hp | ⟨s, hs, -, -, -, hp⟩
  · rw [hp]
    exact h.of_idle hidle rfl rfl h.topped
  · rw [hp]
    refine h.of_idle hidle rfl rfl fun t ht => ?_
    obtain ⟨u, hu, rfl⟩ := (mem_handOn ha.toPlaced hs).mp ht
    unfold settle
    split
    · exact h.topped u hu
    · exact h.topped u hu

theorem request (h : Extent steps a) (ha : a.Sound) (now : Int) :
    Extent (steps ++ [a.step (.request now)]) (a.perform (.request now)).2 := by
  have hrest : (a.request now).2.newest = a.newest ∧ (a.request now).2.oldest = a.oldest := by
    cases hnewest : a.newest with
    | none =>
        rw [request_of_newest_none hnewest]
        exact ⟨hnewest, rfl⟩
    | some newest =>
        obtain ⟨b, n, hround, hb⟩ := round_request ha hnewest now
        rw [hb, hround.rest]
        exact ⟨hnewest, rfl⟩
  refine h.of_idle (idle_request a now) hrest.1 hrest.2 fun t ht => ?_
  rcases old_or_blank_request ha now ht with ⟨s, hs, hlike⟩ | ⟨-, hblank⟩
  · exact (h.topped s hs).like hlike
  · exact (Slot.topped_blank t.id).like hblank

end Extent

/-- **After every run the fields of the ring say how far it has seen.** -/
theorem extent_run (channel : Channel) (limits : Limits) (calls : List Call) :
    Extent ((empty channel limits).trace calls) ((empty channel limits).run calls) := by
  induction calls using List.reverseRecOn with
  | nil => exact Extent.empty channel limits
  | append_singleton calls c ih =>
      have hsound := (sound_empty channel limits).run calls
      rw [trace_concat, run_concat]
      cases c with
      | receive p =>
          rcases receive_cases hsound p with hrefused | ⟨s, hs⟩
          · exact ih.refused hrefused
          · exact ih.kept hsound hs
      | take id => exact ih.take hsound id
      | request now => exact ih.request hsound now

end Assembly

end Framecast
