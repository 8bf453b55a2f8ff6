/-
A ring that asks for what it lacks of a batch.

`Recovering` is the invariant.  A fragment the ring has asked for is `owed` until it
comes.  An empty cell that is not owed was never asked for, so nothing keeps a round
from asking for it: neither the number of requests nor the time of the last one.

So a ring that is owed nothing and makes a round asks for whatever is due, as far as the
budget goes, and if it asks for nothing then nothing is due.  That is the case exactly
if it is `Settled`, which is said by the indices accepted and by nothing else.
-/
import Framecast.Proofs.Assembly.Batch

namespace Framecast

/-- A cell that was never asked for is due at any time. -/
theorem Cell.isDue_blank {limits : Assembly.Limits} (h : 1 ≤ limits.maxRequests) (now : Int) :
    Cell.isDue {} limits now = true := by
  simp only [isDue, Option.isNone_none, Option.all_none, Bool.and_true, Bool.true_and,
    decide_eq_true_eq]
  exact h

namespace Slot

/-- A cell that is empty after a fragment came in was there before, as it was, or is
new. -/
theorem cell_accept {s : Slot} {p : Packet} {j : Nat} {c : Cell}
    (hc : (s.accept p).cells[j]? = some c) (hempty : c.payload = none) :
    j ≠ p.index.toNat ∧ (s.cells[j]? = some c ∨ c = {}) := by
  unfold accept fill at hc
  rw [List.getElem?_modify] at hc
  by_cases hj : p.index.toNat = j
  · exfalso
    simp only [if_pos hj, Option.map_eq_map, Option.map_eq_some_iff] at hc
    obtain ⟨d, -, rfl⟩ := hc
    cases hempty
  · refine ⟨fun heq => hj heq.symm, ?_⟩
    simp only [if_neg hj, Option.map_eq_map, Option.map_id_fun', id_eq] at hc
    by_cases hsize : s.count = 0
    · rw [if_pos hsize] at hc
      simp only [sized] at hc
      by_cases hlt : j < (s.cells.take 1).length
      · rw [List.getElem?_append_left hlt, List.getElem?_take] at hc
        exact Or.inl (Option.ite_none_right_eq_some.mp hc).2
      · rw [List.getElem?_append_right (Nat.not_lt.mp hlt), List.getElem?_replicate] at hc
        right
        simpa using (Option.ite_none_right_eq_some.mp hc).2.symm
    · rw [if_neg hsize] at hc
      exact Or.inl hc

end Slot

namespace Assembly

section Recovering

variable {channel : Channel} {limits : Limits} {store : Store} {b : Batch limits store}
  {top : Int32} {calls : List Call}

/-- A fragment that a ring lacks: a place of a unit up to `top` of which it was not
accepted. -/
def Lacks (b : Batch limits store) (top : Int32) (steps : List Step) (w : Int32 × Nat) : Prop :=
  b.first ≤ w.1 ∧ w.1 ≤ top ∧ w.2 < b.count w.1 ∧ w.2 ∉ accepted steps w.1

/-- A ring that has heard the units up to `top` and is owed what it asked for. -/
structure Recovering (b : Batch limits store) (channel : Channel) (top : Int32)
    (owed : List (Int32 × Nat)) (calls : List Call) : Prop where
  feeds : ∀ c ∈ calls, b.Feeds channel top c
  fresh : ∀ s ∈ (empty channel limits).run calls, ∀ i c, s.cells[i]? = some c →
    c.payload = none → (s.id, i) ∈ owed ∨ c = {}
  lacks : ∀ w ∈ owed, Lacks b top ((empty channel limits).trace calls) w
  nodup : owed.Nodup

namespace Recovering

variable {owed : List (Int32 × Nat)} {p : Packet} {newest : Int32} {now : Int}

theorem start (b : Batch limits store) (channel : Channel) (top : Int32) :
    Recovering b channel top [] [] where
  feeds c hc := by cases hc
  fresh s hs := absurd hs (not_mem_empty channel limits s)
  lacks w hw := by cases hw
  nodup := List.nodup_nil

theorem refused (h : Recovering b channel top owed calls) (hp : b.Feeds channel top (.receive p))
    (hrefused : ((empty channel limits).run calls).Refuses p) :
    Recovering b channel top owed (calls ++ [.receive p]) where
  feeds := by
    intro c hc
    rcases List.mem_append.mp hc with hold | hlast
    · exact h.feeds c hold
    · rw [List.mem_singleton.mp hlast]
      exact hp
  fresh := by
    intro s hs
    rw [run_concat] at hs
    exact h.fresh s (hrefused.mem_iff.mp hs)
  lacks := by
    intro w hw
    rw [trace_concat, Lacks, (idle_refused hrefused.verdict).accepted_concat]
    exact h.lacks w hw
  nodup := h.nodup

/-- A fragment that is kept is owed no longer. -/
theorem kept (h : Recovering b channel top owed calls) (hp : b.Feeds channel top (.receive p))
    {s : Slot} (ht : ((empty channel limits).run calls).TakesIn p s) :
    Recovering b channel top (owed.erase (p.id, p.index.toNat)) (calls ++ [.receive p]) where
  feeds := by
    intro c hc
    rcases List.mem_append.mp hc with hold | hlast
    · exact h.feeds c hold
    · rw [List.mem_singleton.mp hlast]
      exact hp
  fresh := by
    have hsound := (sound_empty channel limits).run calls
    intro t hmem i c hc hempty
    rw [run_concat] at hmem
    change t ∈ (((empty channel limits).run calls).receive p).2 at hmem
    rw [receive_of_takesIn hsound ht] at hmem
    rw [h.nodup.mem_erase_iff]
    rcases (ht.mem_keepIn hsound).mp hmem with rfl | ⟨hold, hpos⟩
    · obtain ⟨hindex, hcell⟩ := Slot.cell_accept hc hempty
      rw [Slot.id_accept]
      have hbefore : (s.id, i) ∈ owed ∨ c = {} := by
        rcases hcell with hcell | hnew
        · rcases ht.place with hs | ⟨rfl, -⟩
          · exact h.fresh s hs i c hcell hempty
          · right
            simp only [List.getElem?_singleton, Option.ite_none_right_eq_some,
              Option.some.injEq] at hcell
            exact hcell.2.symm
        · exact Or.inr hnew
      refine hbefore.imp_left fun howed => ⟨?_, howed⟩
      intro heq
      exact hindex (congrArg Prod.snd heq)
    · refine (h.fresh t hold i c hc hempty).imp_left fun howed => ⟨?_, howed⟩
      intro heq
      have hid : t.id = p.id := congrArg Prod.fst heq
      exact hpos (by rw [hid])
  lacks := by
    have hsound := (sound_empty channel limits).run calls
    intro w hw
    rw [h.nodup.mem_erase_iff] at hw
    obtain ⟨hfirst, hle, hlt, hnot⟩ := h.lacks w hw.2
    refine ⟨hfirst, hle, hlt, ?_⟩
    rw [trace_concat, mem_accepted_of_takesIn hsound ht, not_or]
    exact ⟨hnot, hw.1⟩
  nodup := h.nodup.erase _

/-- What is due of a unit of the window is lacking, whatever else is owed. -/
theorem lacks_of_mem_dueOf (h : Recovering b channel top owed calls) (htop : top ≤ b.last)
    {id : Int32} (hid : b.first ≤ id ∧ id ≤ top) {i : Nat}
    (hi : i ∈ ((empty channel limits).run calls).dueOf now newest id) :
    Lacks b top ((empty channel limits).trace calls) (id, i) := by
  have hsound := (sound_empty channel limits).run calls
  have hfaithful := faithful_of_feeds h.feeds
  refine ⟨hid.1, hid.2, ?_⟩
  unfold dueOf at hi
  cases hof : ((empty channel limits).run calls).slotOf? id with
  | some s =>
      obtain ⟨hs, rfl⟩ := hsound.slotOf?_eq_some.mp hof
      simp only [hof] at hi
      obtain ⟨-, -, -, c, hc, hdue⟩ := Slot.mem_due.mp hi
      have hlength := (hsound.slot s hs).length_cells
      have hlt : i < s.cells.length := (List.getElem?_eq_some_iff.mp hc).1
      have hsome := b.count_pos s.id
      refine ⟨?_, ?_⟩
      · rcases hfaithful.count s hs with hzero | hcount
        · show i < b.count s.id
          omega
        · show i < b.count s.id
          omega
      · rw [← hfaithful.filled s hs, Slot.mem_filled_iff_payload?]
        intro hfilled
        obtain ⟨d, hd⟩ := hfilled
        simp only [Cell.isDue, Bool.and_eq_true, Option.isNone_iff_eq_none] at hdue
        simp [Slot.payload?, hc, hdue.1.1] at hd
  | none =>
      have hempty : accepted ((empty channel limits).trace calls) id = ∅ := by
        by_contra hne
        obtain ⟨s, hs, hsid⟩ := exists_slot_of_accepted h.feeds htop hne
        exact hsound.slotOf?_eq_none.mp hof s hs hsid
      simp only [hof] at hi
      by_cases hlast : id = newest
      · simp [hlast] at hi
      · rw [if_neg hlast] at hi
        obtain ⟨-, -, -, c, hc, -⟩ := Slot.mem_due.mp hi
        have hlt : i < 1 := (List.getElem?_eq_some_iff.mp hc).1
        have hsome := b.count_pos id
        refine ⟨?_, ?_⟩
        · show i < b.count id
          omega
        · rw [hempty]
          exact Finset.notMem_empty i

/-- While nothing is owed, an empty place is due wherever a round looks. -/
theorem mem_dueOf_of_empty (h : Recovering b channel top [] calls) (hmax : 1 ≤ limits.maxRequests)
    {s : Slot} (hs : s ∈ (empty channel limits).run calls) {i : Nat} (hi : i < s.cells.length)
    (hlimit : i < s.askLimit newest) (hempty : i ∉ s.filled) :
    i ∈ ((empty channel limits).run calls).dueOf now newest s.id := by
  have hsound := (sound_empty channel limits).run calls
  have hopen : s.taken = false :=
    hsound.not_taken hs (isFinished_of_lastTaken (lastTaken_of_feeds h.feeds) s.id)
  have hpart : s.isComplete = false := by
    by_contra hcomplete
    obtain ⟨hpos, hfilled⟩ := (hsound.slot s hs).isComplete_iff.mp (by simpa using hcomplete)
    have hlength := (hsound.slot s hs).length_cells
    rw [hfilled, Finset.mem_range] at hempty
    omega
  have hcell := List.getElem?_eq_getElem hi
  have hpayload : s.cells[i].payload = none := by
    rw [Slot.mem_filled, Slot.holds, hcell] at hempty
    simpa using hempty
  have hfresh : s.cells[i] = {} :=
    (h.fresh s hs i _ hcell hpayload).resolve_left (List.not_mem_nil)
  unfold dueOf
  rw [hsound.slotOf?_eq_some.mpr ⟨hs, rfl⟩]
  refine Slot.mem_due.mpr ⟨hopen, hpart, hlimit, s.cells[i], hcell, ?_⟩
  rw [hfresh, (run_limits (sound_empty channel limits) calls).1]
  exact Cell.isDue_blank hmax now

/-- What a round asks for is owed after it. -/
theorem requested (h : Recovering b channel top [] calls) (htop : top ≤ b.last)
    (hnewest : ((empty channel limits).run calls).newest = some newest) (now : Int) :
    Recovering b channel top (((empty channel limits).run calls).asksFor now newest)
      (calls ++ [.request now]) where
  feeds := by
    intro c hc
    rcases List.mem_append.mp hc with hold | hlast
    · exact h.feeds c hold
    · rw [List.mem_singleton.mp hlast]
      exact trivial
  fresh := by
    have hsound := (sound_empty channel limits).run calls
    intro t ht i c hc hempty
    rw [run_concat] at ht
    change t ∈ (((empty channel limits).run calls).request now).2 at ht
    obtain ⟨s, hs, hts⟩ := exists_of_mem_request hsound.toPlaced hnewest ht
    rw [hts, Slot.getElem?_asked, Option.map_eq_some_iff] at hc
    obtain ⟨d, hd, rfl⟩ := hc
    by_cases hasked : i ∈ indicesOf (((empty channel limits).run calls).asksFor now newest) t.id
    · exact Or.inl (mem_indicesOf.mp hasked)
    · rw [if_neg hasked] at hempty ⊢
      right
      rcases hs with hold | ⟨-, hblank, -⟩
      · exact (h.fresh s hold i d hd hempty).resolve_left (List.not_mem_nil)
      · rw [hblank] at hd
        simp only [List.getElem?_singleton, Option.ite_none_right_eq_some,
          Option.some.injEq] at hd
        exact hd.2.symm
  lacks := by
    have hsound := (sound_empty channel limits).run calls
    intro w hw
    obtain ⟨hstart, hle, hdue⟩ := mem_asksFor hsound.toPlaced hw
    obtain ⟨hfirst, hnewle⟩ := first_le_askStart h.feeds hnewest
    have hlacks := h.lacks_of_mem_dueOf htop
      ⟨Int32.le_iff_toInt_le.mpr (by omega), Int32.le_trans hle hnewle⟩ hdue
    rw [trace_concat, Lacks, (idle_request _ now).accepted_concat]
    exact hlacks
  nodup := nodup_asksFor ((sound_empty channel limits).run calls).toPlaced

end Recovering

/-! ### When a round is silent -/

/-- Nothing is missing that a round asks for: the units below the newest one are all
there, and of the newest one all that lies below the highest index. -/
structure Settled (sender : Sender limits) (steps : List Step) : Prop where
  whole : ∀ id, (∃ x, accepted steps x ≠ ∅ ∧ x ≤ id) → (∃ y, accepted steps y ≠ ∅ ∧ id < y) →
    accepted steps id = sender.indices id
  front : ∀ n, accepted steps n ≠ ∅ → (∀ y, accepted steps y ≠ ∅ → y ≤ n) →
    ∀ i ∈ accepted steps n, ∀ j, j < i → j ∈ accepted steps n

theorem Settled.congr {sender : Sender limits} {steps later : List Step}
    (h : Settled sender steps) (hsame : ∀ id, accepted later id = accepted steps id) :
    Settled sender later where
  whole := by
    simp only [hsame]
    exact h.whole
  front := by
    simp only [hsame]
    exact h.front

namespace Recovering

variable {newest : Int32} {now : Int}

/-- The window of a round reaches down to the oldest unit of which something arrived. -/
theorem askStart_eq (h : Recovering b channel top [] calls) (htop : top ≤ b.last)
    (hnewest : ((empty channel limits).run calls).newest = some newest) :
    ∃ m, ((empty channel limits).run calls).oldest = some m ∧
      ((empty channel limits).run calls).askStart newest = m.toInt := by
  have hextent := extent_run channel limits calls
  have hmem := hextent.newest_mem newest hnewest
  obtain ⟨m, hm, -⟩ := hextent.oldest_le newest hmem
  refine ⟨m, hm, ?_⟩
  have hsize : ((empty channel limits).run calls).limits.size = max limits.size 1 := by
    rw [(run_limits (sound_empty channel limits) calls).1]
    rfl
  have hlow := Int32.le_iff_toInt_le.mp (accepted_within h.feeds (hextent.oldest_mem m hm)).1
  have hhigh := Int32.le_iff_toInt_le.mp (accepted_within h.feeds hmem).2
  have hlast := Int32.le_iff_toInt_le.mp htop
  have hfew := b.few
  unfold askStart
  rw [lastTaken_of_feeds h.feeds, hm]
  show max m.toInt (newest.toInt - (((empty channel limits).run calls).limits.size - 1 : Int)) = _
  rw [hsize]
  omega

/-- Of a window in which nothing is due, the units below the newest one are whole. -/
theorem whole_of_not_due (h : Recovering b channel top [] calls) (hmax : 1 ≤ limits.maxRequests)
    {id : Int32} (hne : id ≠ newest)
    (hdue : ((empty channel limits).run calls).dueOf now newest id = []) :
    accepted ((empty channel limits).trace calls) id = b.indices id := by
  have hsound := (sound_empty channel limits).run calls
  cases hof : ((empty channel limits).run calls).slotOf? id with
  | none =>
      -- A unit without a slot would be asked for its first fragment.
      unfold dueOf at hdue
      simp only [hof, if_neg hne] at hdue
      have hzero : 0 ∈ Slot.due { id } ((empty channel limits).run calls).limits now newest := by
        refine Slot.mem_due.mpr ⟨rfl, rfl, Nat.one_pos, {}, rfl, ?_⟩
        rw [(run_limits (sound_empty channel limits) calls).1]
        exact Cell.isDue_blank hmax now
      rw [hdue] at hzero
      cases hzero
  | some s =>
      obtain ⟨hs, rfl⟩ := hsound.slotOf?_eq_some.mp hof
      have hslot := hsound.slot s hs
      have hlength := hslot.length_cells
      have hlimit : s.askLimit newest = max s.count 1 := by
        unfold Slot.askLimit
        rw [if_neg hne]
        split
        · omega
        · omega
      have hfull : ∀ i, i < s.cells.length → i ∈ s.filled := by
        intro i hi
        by_contra hempty
        have hmem : i ∈ ((empty channel limits).run calls).dueOf now newest s.id :=
          h.mem_dueOf_of_empty hmax hs hi (by omega) hempty
        rw [hdue] at hmem
        cases hmem
      rw [← (faithful_of_feeds h.feeds).filled s hs]
      rcases (faithful_of_feeds h.feeds).count s hs with hzero | hcount
      · have hmem := hfull 0 (by omega)
        rw [hslot.filled_of_unsized hzero] at hmem
        exact absurd hmem (Finset.notMem_empty 0)
      · have hrange : b.indices s.id = Finset.range s.count := by rw [hcount]; rfl
        rw [hrange]
        refine Finset.Subset.antisymm hslot.filled_subset fun i hi => hfull i ?_
        rw [Finset.mem_range] at hi
        omega

/-- If nothing of the newest unit is due, it has no gap. -/
theorem front_of_not_due (h : Recovering b channel top [] calls) (htop : top ≤ b.last)
    (hmax : 1 ≤ limits.maxRequests)
    (hdue : ((empty channel limits).run calls).dueOf now newest newest = []) {i j : Nat}
    (hi : i ∈ accepted ((empty channel limits).trace calls) newest) (hj : j < i) :
    j ∈ accepted ((empty channel limits).trace calls) newest := by
  have hsound := (sound_empty channel limits).run calls
  have htopped := (extent_run channel limits calls).topped
  obtain ⟨s, hs, rfl⟩ := exists_slot_of_accepted h.feeds htop (Finset.ne_empty_of_mem hi)
  rw [← (faithful_of_feeds h.feeds).filled s hs] at hi ⊢
  have hcount : s.count ≠ 0 := by
    intro hzero
    rw [(hsound.slot s hs).filled_of_unsized hzero] at hi
    exact Finset.notMem_empty i hi
  have hhigh := (htopped s hs).le hi
  have hlength := Slot.lt_length_of_mem_filled hi
  have hlimit : s.askLimit s.id = s.highest := by
    unfold Slot.askLimit
    rw [if_neg hcount, if_pos rfl]
  by_contra hempty
  have hmem : j ∈ ((empty channel limits).run calls).dueOf now s.id s.id :=
    h.mem_dueOf_of_empty hmax hs (by omega) (by omega) hempty
  rw [hdue] at hmem
  cases hmem

theorem settled_of_asksFor_nil (h : Recovering b channel top [] calls) (htop : top ≤ b.last)
    (hmax : 1 ≤ limits.maxRequests) (hround : 1 ≤ limits.maxPerRound)
    (hnewest : ((empty channel limits).run calls).newest = some newest)
    (hasks : ((empty channel limits).run calls).asksFor now newest = []) :
    Settled b.toSender ((empty channel limits).trace calls) := by
  have hextent := extent_run channel limits calls
  obtain ⟨m, hm, hstart⟩ := h.askStart_eq htop hnewest
  have hdue {id : Int32} (hle : m ≤ id) (hnew : id ≤ newest) :
      ((empty channel limits).run calls).dueOf now newest id = [] := by
    refine dueOf_of_asksFor_nil ((sound_empty channel limits).run calls).toPlaced ?_ hasks ?_ hnew
    · rw [(run_limits (sound_empty channel limits) calls).1]
      exact hround
    · rw [hstart]
      exact Int32.le_iff_toInt_le.mp hle
  refine ⟨?_, ?_⟩
  · intro id hx hy
    obtain ⟨x, hx, hxid⟩ := hx
    obtain ⟨y, hy, hidy⟩ := hy
    have hlt : id < newest := Int32.lt_of_lt_of_le hidy (hextent.le_of_newest hnewest hy)
    have hnone := hdue (Int32.le_trans (hextent.le_of_oldest hm hx) hxid) (Int32.le_of_lt hlt)
    exact h.whole_of_not_due hmax (fun hc => Int32.lt_irrefl (hc ▸ hlt)) hnone
  · intro n hn hlast i hi j hj
    have hnn : n = newest := Int32.le_antisymm (hextent.le_of_newest hnewest hn)
      (hlast newest (hextent.newest_mem newest hnewest))
    rw [hnn] at hi ⊢
    have hnone := hdue (hextent.le_of_oldest hm (hextent.newest_mem newest hnewest))
      (Int32.le_refl newest)
    exact h.front_of_not_due htop hmax hnone hi hj

theorem asksFor_nil_of_settled (h : Recovering b channel top [] calls) (htop : top ≤ b.last)
    (hnewest : ((empty channel limits).run calls).newest = some newest)
    (hsettled : Settled b.toSender ((empty channel limits).trace calls)) :
    ((empty channel limits).run calls).asksFor now newest = [] := by
  have hsound := (sound_empty channel limits).run calls
  have hextent := extent_run channel limits calls
  have hnewmem := hextent.newest_mem newest hnewest
  obtain ⟨m, hm, hstart⟩ := h.askStart_eq htop hnewest
  refine List.eq_nil_iff_forall_not_mem.mpr fun w hw => ?_
  obtain ⟨hge, hle, hdue⟩ := mem_asksFor hsound.toPlaced hw
  rw [hstart] at hge
  obtain ⟨-, hnewtop⟩ := first_le_askStart h.feeds hnewest
  have hlow := (accepted_within h.feeds (hextent.oldest_mem m hm)).1
  have hmw : m ≤ w.1 := Int32.le_iff_toInt_le.mpr hge
  obtain ⟨-, -, hlt, hnot⟩ :=
    h.lacks_of_mem_dueOf htop ⟨Int32.le_trans hlow hmw, Int32.le_trans hle hnewtop⟩ hdue
  by_cases hid : w.1 = newest
  · obtain ⟨s, hs, hsid⟩ := exists_slot_of_accepted h.feeds htop hnewmem
    have hfilled := (faithful_of_feeds h.feeds).filled s hs
    have hne : s.filled ≠ ∅ := by
      rw [hfilled, hsid]
      exact hnewmem
    have hcount : s.count ≠ 0 := fun hzero => hne ((hsound.slot s hs).filled_of_unsized hzero)
    unfold dueOf at hdue
    rw [hid, hsound.slotOf?_eq_some.mpr ⟨hs, hsid⟩] at hdue
    obtain ⟨-, -, hlimit, -⟩ := Slot.mem_due.mp hdue
    unfold Slot.askLimit at hlimit
    rw [if_neg hcount, if_pos hsid] at hlimit
    have htopmem := (hextent.topped s hs).highest_mem hne
    rw [hfilled, hsid] at htopmem
    refine hnot ?_
    show w.2 ∈ accepted _ w.1
    rw [hid]
    exact hsettled.front newest hnewmem (fun y hy => hextent.le_of_newest hnewest hy)
      _ htopmem _ hlimit
  · have hall := hsettled.whole w.1 ⟨m, hextent.oldest_mem m hm, hmw⟩
      ⟨newest, hnewmem, Int32.lt_of_le_of_ne hle hid⟩
    change w.2 ∉ accepted _ w.1 at hnot
    rw [hall] at hnot
    exact hnot (Finset.mem_range.mpr hlt)

end Recovering

end Recovering

end Assembly

end Framecast
