/-
What a packet that is refused leaves behind, and what one that was kept does when it comes
again.

A packet is refused for one of four reasons, and each has its own account: it cannot belong
to the channel or to its unit, its unit is finished, its slot belongs to a younger unit, or its
fragment is there already.  Only the second and the last are counted, as a duplicate, and the
second only if the packet was sent again on purpose.  Nothing else of the ring changes.

A ring that is written in place opens and sizes slots before it looks at the packet for the
last time.  That this leaves no trace either is that a slot just opened or sized takes in any
fragment, so what is refused was refused by a slot that stood there (`Refuses.exists_slot`).
-/
import Framecast.Proofs.Assembly.InPlace

namespace Framecast

namespace Assembly

/-! ### What is refused -/

/-- What is said of a packet, and what becomes of the ring, if the packet is not kept. -/
def Turned (a : Assembly) (p : Packet) : Verdict × Assembly → Prop
  | (.invalid, b) => b = a
  | (.stale, b) => b = if p.resent && a.isFinished p.id then a.countDuplicate else a
  | (.duplicate, b) => b = a.countDuplicate
  | _ => False

/-- **A packet that is refused is counted, or nothing at all happens.** -/
theorem Refuses.turned {a : Assembly} {p : Packet} (h : a.Refuses p) (ha : a.Sound) :
    a.Turned p (a.receive p) := by
  by_cases hadmits : a.admits p = true
  swap
  · rw [receive, if_pos hadmits]
    rfl
  have hin : ¬ ¬ a.admits p = true := fun hc => hc hadmits
  by_cases hfin : a.isFinished p.id = true
  · rw [receive, if_neg hin, if_pos hfin]
    show _ = if (p.resent && a.isFinished p.id) = true then _ else _
    rw [hfin, Bool.and_true]
  have hunfinished : a.isFinished p.id = false := by simpa using hfin
  obtain ⟨s, hs, hpos, hwhy⟩ := h.exists_slot ha hadmits hunfinished
  have hat : a.slotAt? p.id = some s := ha.slotAt?_eq_some.mpr ⟨hs, hpos⟩
  rcases hwhy with hlt | ⟨hid, hfits⟩
  · have hr : a.receive p = (.stale, a) := by
      simp only [receive, if_neg hin, if_neg hfin, hat, if_pos hlt]
    rw [hr]
    show _ = if (p.resent && a.isFinished p.id) = true then _ else _
    rw [hunfinished, Bool.and_false]
    rfl
  · have hlt : ¬ p.id < s.id := by
      rw [hid]
      exact Int32.lt_irrefl
    have hr : a.receive p = a.deliver s p := by
      simp only [receive, if_neg hin, if_neg hfin, hat, if_neg hlt, if_pos hid]
    rw [hr]
    rcases deliver_of_not_fits a (ha.slot s hs) (index_lt_of_admits hadmits) hfits with hd | hd
    · rw [hd]
      rfl
    · rw [hd]
      rfl

/-! ### What comes again -/

namespace TakesIn

variable {a : Assembly} {p : Packet} {s : Slot}

/-- What was kept fits no more. -/
theorem deliver_accept (h : a.TakesIn p s) (ha : a.Sound) (b : Assembly) :
    b.deliver (s.accept p) p = (.duplicate, b.countDuplicate) := by
  have hsound := h.sound_slot ha
  have hcount := h.fits.count_accept hsound
  have hpos : p.count.toNat ≠ 0 := by
    have := h.fits.index_lt
    omega
  have hheld : (s.accept p).holds p.index.toNat = true := by
    rw [← Slot.mem_filled, h.fits.filled_accept hsound]
    exact Finset.mem_insert_self _ _
  rw [deliver, if_neg fun hne => hne.2 hcount]
  simp only [hcount, if_neg hpos, if_pos hheld]

/-- **A packet that was kept is a duplicate when it comes again.** -/
theorem receive_again (h : a.TakesIn p s) (ha : a.Sound) :
    (a.keepIn p s).receive p = (.duplicate, (a.keepIn p s).countDuplicate) := by
  have hadmits : ¬ ¬ (a.keepIn p s).admits p = true := by
    rw [keepIn, makeRoom_eq]
    exact fun hc => hc h.admits
  have hfin : ¬ (a.keepIn p s).isFinished p.id = true := by
    have hsame : (a.keepIn p s).isFinished p.id = a.isFinished p.id := by
      rw [keepIn, makeRoom_eq]
      rfl
    rw [hsame, h.unfinished]
    exact Bool.noConfusion
  have hid : (s.accept p).id = p.id := by rw [Slot.id_accept, h.id_eq]
  have hat : (a.keepIn p s).slotAt? p.id = some (s.accept p) :=
    (ha.keepIn h).slotAt?_eq_some.mpr ⟨(h.mem_keepIn ha).mpr (Or.inl rfl), by rw [hid]⟩
  have hlt : ¬ p.id < (s.accept p).id := by
    rw [hid]
    exact Int32.lt_irrefl
  rw [receive, if_neg hadmits, if_neg hfin, hat]
  show (if p.id < (s.accept p).id then _ else _) = _
  rw [if_neg hlt, if_pos hid, h.deliver_accept ha]

end TakesIn

/-! ### After every run -/

/-- **A packet that is refused leaves the ring as it was, and one that was kept is refused when
it comes again.**  In whatever state the ring is:

* written in place, it does with any packet what it does on whole values;
* a packet that cannot belong to the channel or to its unit changes nothing;
* one that came too late changes nothing, but that it counts as a duplicate exactly if it was
  sent again and its unit is at or below the newest one handed on;
* one that is there already counts as a duplicate and changes nothing else;
* one that was kept just now is there already.
-/
theorem refused_packet_leaves_ring (channel : Channel) (limits : Limits) (calls : List Call)
    (p : Packet) :
    let a := (empty channel limits).run calls
    a.receiveInPlace? p = some (a.receive p) ∧
      match a.receive p with
      | (.invalid, after) => after = a
      | (.stale, after) =>
        after = if p.resent && a.isFinished p.id then a.countDuplicate else a
      | (.duplicate, after) => after = a.countDuplicate
      | (.stored, after) | (.completed, after) =>
        after.receiveInPlace? p = some (.duplicate, after.countDuplicate) := by
  intro a
  have hsound : a.Sound := (sound_empty channel limits).run calls
  refine ⟨receiveInPlace?_eq hsound p, ?_⟩
  rcases receive_cases hsound p with hrefused | ⟨s, hs⟩
  · have hturned := hrefused.turned hsound
    generalize a.receive p = r at hturned ⊢
    obtain ⟨v, after⟩ := r
    cases v with
    | invalid => exact hturned
    | stale => exact hturned
    | duplicate => exact hturned
    | stored => exact hturned.elim
    | completed => exact hturned.elim
  · have hagain : (a.keepIn p s).receiveInPlace? p =
        some (.duplicate, (a.keepIn p s).countDuplicate) := by
      rw [receiveInPlace?_eq (hsound.keepIn hs), hs.receive_again hsound]
    rw [receive_of_takesIn hsound hs, keptVerdict]
    by_cases hcomplete : (s.accept p).isComplete = true
    · rw [if_pos hcomplete]
      exact hagain
    · rw [if_neg hcomplete]
      exact hagain

end Assembly

end Framecast
