/-
A ring that hears a batch.

A `Batch` is a row of units, numbered without gap, that are no more than the ring has
slots.  While a ring hears nothing but their fragments, and nothing is handed on, all of
its slots belong to units of the batch.  No two of these share a position, so no unit
loses its slot, and a fragment is refused only if it came before.
-/
import Framecast.Proofs.Assembly.Arrival
import Framecast.Proofs.Assembly.Extent
import Framecast.Proofs.Assembly.Wanted
import Framecast.Retention.Store

namespace Framecast

namespace Assembly

/-- Units from `first` to `last` that neither ring nor store is too small for.  The sender
says what they carry; what it would send besides does not matter. -/
structure Batch (limits : Limits) (store : Store) extends Sender limits where
  first : Int32
  last : Int32
  few : last.toInt - first.toInt < (min limits.size store.units : Nat)
  places : ∀ id, first ≤ id → id ≤ last → toSender.count id ≤ store.places

namespace Batch

variable {limits : Limits} {store : Store}

/-- What may happen to a ring that hears the units up to `top`. -/
def Feeds (b : Batch limits store) (channel : Channel) (top : Int32) : Call → Prop
  | .receive p => b.first ≤ p.id ∧ p.id ≤ top ∧ b.Sends channel p
  | .take _ => False
  | .request _ => True

theorem Feeds.allows {b : Batch limits store} {channel : Channel} {top : Int32} {c : Call}
    (h : b.Feeds channel top c) : b.Allows channel c := by
  cases c with
  | receive p => exact Or.inl h.2.2
  | take id => exact trivial
  | request now => exact trivial

end Batch

/-- What was accepted was received. -/
theorem exists_of_mem_accepted {a : Assembly} {calls : List Call} {id : Int32} {i : Nat}
    (h : i ∈ accepted (a.trace calls) id) :
    ∃ p, Call.receive p ∈ calls ∧ p.id = id ∧ p.index.toNat = i := by
  induction calls using List.reverseRecOn with
  | nil => simp [trace, accepted] at h
  | append_singleton calls c ih =>
      rw [trace_concat, accepted_concat, Finset.mem_union] at h
      by_cases hold : i ∈ accepted (a.trace calls) id
      · obtain ⟨p, hp, hid, hindex⟩ := ih hold
        exact ⟨p, List.mem_append_left _ hp, hid, hindex⟩
      · have hlast := h.resolve_left hold
        cases c with
        | receive p =>
            simp only [step, perform, Step.accepted?, Option.mem_toFinset, Option.mem_def,
              Option.ite_none_right_eq_some, Option.some.injEq] at hlast
            exact ⟨p, by simp, hlast.1.1, hlast.2⟩
        | take x => simp [step, Step.accepted?] at hlast
        | request now => simp [step, Step.accepted?] at hlast

section Hears

variable {channel : Channel} {limits : Limits} {store : Store} {b : Batch limits store}
  {top : Int32} {calls : List Call}

/-! ### What the ring holds -/

theorem faithful_of_feeds (hcalls : ∀ c ∈ calls, b.Feeds channel top c) :
    Faithful b.toSender ((empty channel limits).trace calls) ((empty channel limits).run calls) :=
  faithful_run fun c hc => (hcalls c hc).allows

theorem accepted_within (hcalls : ∀ c ∈ calls, b.Feeds channel top c) {id : Int32}
    (h : accepted ((empty channel limits).trace calls) id ≠ ∅) : b.first ≤ id ∧ id ≤ top := by
  obtain ⟨i, hi⟩ := Finset.nonempty_iff_ne_empty.mpr h
  obtain ⟨p, hp, rfl, -⟩ := exists_of_mem_accepted hi
  have hfeeds := hcalls _ hp
  exact ⟨hfeeds.1, hfeeds.2.1⟩

theorem lastTaken_of_feeds (hcalls : ∀ c ∈ calls, b.Feeds channel top c) :
    ((empty channel limits).run calls).lastTaken = none := by
  induction calls using List.reverseRecOn with
  | nil => rfl
  | append_singleton calls c ih =>
      have hprev := ih fun d hd => hcalls d (List.mem_append_left _ hd)
      have hsound := (sound_empty channel limits).run calls
      rw [run_concat]
      cases c with
      | receive p => exact (opening_receive hsound p).lastTaken.trans hprev
      | take id => exact absurd (hcalls (.take id) (by simp)) not_false
      | request now => exact (opening_request hsound now).lastTaken.trans hprev

/-- A round starts at the oldest unit of which something arrived, or higher. -/
theorem first_le_askStart (hcalls : ∀ c ∈ calls, b.Feeds channel top c) {newest : Int32}
    (hnewest : ((empty channel limits).run calls).newest = some newest) :
    b.first.toInt ≤ ((empty channel limits).run calls).askStart newest ∧ newest ≤ top := by
  have hextent := extent_run channel limits calls
  obtain ⟨hfirst, htop⟩ := accepted_within hcalls (hextent.newest_mem newest hnewest)
  refine ⟨?_, htop⟩
  rw [Int32.le_iff_toInt_le] at hfirst
  unfold askStart
  rw [lastTaken_of_feeds hcalls]
  cases hold : ((empty channel limits).run calls).oldest with
  | none => exact hfirst
  | some m =>
      have hm := Int32.le_iff_toInt_le.mp (accepted_within hcalls (hextent.oldest_mem m hold)).1
      show b.first.toInt ≤ max m.toInt _
      omega

theorem slot_within (hcalls : ∀ c ∈ calls, b.Feeds channel top c) :
    ∀ s ∈ (empty channel limits).run calls, b.first ≤ s.id ∧ s.id ≤ top := by
  induction calls using List.reverseRecOn with
  | nil =>
      intro s hs
      exact absurd hs (not_mem_empty channel limits s)
  | append_singleton calls c ih =>
      have hcalls' : ∀ d ∈ calls, b.Feeds channel top d :=
        fun d hd => hcalls d (List.mem_append_left _ hd)
      have hprev := ih hcalls'
      have hc := hcalls c (by simp)
      have hsound := (sound_empty channel limits).run calls
      rw [run_concat]
      intro t ht
      cases c with
      | receive p =>
          change t ∈ (((empty channel limits).run calls).receive p).2 at ht
          rcases receive_cases hsound p with hrefused | ⟨s, hs⟩
          · exact hprev t (hrefused.mem_iff.mp ht)
          · rw [receive_of_takesIn hsound hs] at ht
            rcases (hs.mem_keepIn hsound).mp ht with rfl | ⟨hold, -⟩
            · rw [Slot.id_accept, hs.id_eq]
              exact ⟨hc.1, hc.2.1⟩
            · exact hprev t hold
      | take id => exact absurd hc not_false
      | request now =>
          change t ∈ (((empty channel limits).run calls).request now).2 at ht
          cases hnewest : ((empty channel limits).run calls).newest with
          | none =>
              rw [request_of_newest_none hnewest] at ht
              exact hprev t ht
          | some newest =>
              obtain ⟨hstart, htop⟩ := first_le_askStart hcalls' hnewest
              obtain ⟨s, hs, hts⟩ := exists_of_mem_request hsound.toPlaced hnewest ht
              rcases hs with hold | ⟨-, -, hge, hlt⟩
              · rw [hts, Slot.id_asked]
                exact hprev s hold
              · rw [Int32.le_iff_toInt_le] at htop
                unfold span at hlt
                exact ⟨Int32.le_iff_toInt_le.mpr (by omega), Int32.le_iff_toInt_le.mpr (by omega)⟩

/-- **Units of the batch do not share positions.** -/
theorem id_eq_of_position_eq (htop : top ≤ b.last) {x y : Int32}
    (hx : b.first ≤ x ∧ x ≤ top) (hy : b.first ≤ y ∧ y ≤ top)
    (hpos : ((empty channel limits).run calls).position x =
      ((empty channel limits).run calls).position y) : x = y := by
  have hsound := (sound_empty channel limits).run calls
  have hsize : ((empty channel limits).run calls).limits.size = max limits.size 1 := by
    rw [(run_limits (sound_empty channel limits) calls).1]
    rfl
  have hfew := b.few
  simp only [Int32.le_iff_toInt_le] at hx hy htop
  rcases Int.lt_trichotomy x.toInt y.toInt with hlt | heq | hgt
  · have hfar := add_size_le_of_position_eq hsound.size_pos hpos (Int32.lt_iff_toInt_lt.mpr hlt)
    omega
  · exact Int32.toInt_inj.mp heq
  · have hfar := add_size_le_of_position_eq hsound.size_pos hpos.symm
      (Int32.lt_iff_toInt_lt.mpr hgt)
    omega

/-- A unit of which something was accepted still has its slot. -/
theorem exists_slot_of_accepted (hcalls : ∀ c ∈ calls, b.Feeds channel top c)
    (htop : top ≤ b.last) {id : Int32}
    (h : accepted ((empty channel limits).trace calls) id ≠ ∅) :
    ∃ s ∈ (empty channel limits).run calls, s.id = id := by
  obtain ⟨s, hs, hpos, -⟩ := (faithful_of_feeds hcalls).present id h
  exact ⟨s, hs, id_eq_of_position_eq htop (slot_within hcalls s hs) (accepted_within hcalls h) hpos⟩

/-- **A fragment of the batch is kept, unless it came before.** -/
theorem exists_takesIn (hcalls : ∀ c ∈ calls, b.Feeds channel top c) (htop : top ≤ b.last)
    {p : Packet} (hp : b.Feeds channel top (.receive p))
    (hnew : p.index.toNat ∉ accepted ((empty channel limits).trace calls) p.id) :
    ∃ s, ((empty channel limits).run calls).TakesIn p s := by
  obtain ⟨hfirst, hle, hsent⟩ := hp
  have hadmits : ((empty channel limits).run calls).admits p = true := by
    obtain ⟨id, hmem⟩ := hsent
    have hcount : fragmentCount (b.payload id).length (b.limit id) ≤
        min limits.maxFragments 65535 := b.count_le id
    rw [admits_run (sound_empty channel limits)]
    exact (admits_fragment (b.limit_pos id) (b.limit_le id) (by omega) hmem).mpr (by omega)
  have hsound := (sound_empty channel limits).run calls
  refine takesIn_of_new (faithful_of_feeds hcalls) hsound hsent hadmits ?_ ?_ hnew
  · exact isFinished_of_lastTaken (lastTaken_of_feeds hcalls) p.id
  · intro s hs hpos
    rw [id_eq_of_position_eq htop (slot_within hcalls s hs) ⟨hfirst, hle⟩ hpos]
    exact Int32.le_refl _

/-- The slot of a unit all of whose indices were accepted is complete. -/
theorem isComplete_of_accepted (hcalls : ∀ c ∈ calls, b.Feeds channel top c) {s : Slot}
    (hs : s ∈ (empty channel limits).run calls)
    (hall : accepted ((empty channel limits).trace calls) s.id = b.indices s.id) :
    s.isComplete = true := by
  have hslot := ((sound_empty channel limits).run calls).slot s hs
  have hfilled := (faithful_of_feeds hcalls).filled s hs
  rw [hall] at hfilled
  rw [hslot.isComplete_iff]
  rcases (faithful_of_feeds hcalls).count s hs with hzero | hcount
  · rw [hslot.filled_of_unsized hzero] at hfilled
    exact absurd hfilled.symm (b.indices_ne_empty s.id)
  · rw [hcount]
    exact ⟨b.count_pos s.id, hfilled⟩

end Hears

end Assembly

end Framecast
