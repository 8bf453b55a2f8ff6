/-
How often fragments are asked for, over a whole run.

The requests for a fragment are noted in a cell of its unit's slot, and slots come and go.
Still no request is forgotten as long as it matters.  A slot that learns its size keeps what
its cells note, and a unit that lost its slot lost it to a younger one and gets none again:
so whenever a fragment is asked for, its cell has noted every request made for it since the
run began (`Noted`).  The limits that a round checks against the cell are then limits on
the run.
-/
import Framecast.Proofs.Assembly.Missing

namespace Framecast

/-! ### What a cell notes -/

namespace Cell

/-- What a cell notes of requests made at `times`: how many there were, and the last one. -/
structure Notes (c : Cell) (times : List Int) : Prop where
  requests : c.requests = times.length
  lastRequest : c.lastRequest = times.getLast?

theorem notes_blank : Notes {} [] := ⟨rfl, rfl⟩

theorem Notes.asked {c : Cell} {times : List Int} (h : c.Notes times) (now : Int) :
    (c.asked now).Notes (times ++ [now]) where
  requests := by
    rw [List.length_append, ← h.requests]
    rfl
  lastRequest := by
    rw [List.getLast?_concat]
    rfl

end Cell

namespace Slot

variable {s : Slot}

theorem cellAt_blank (id : Int32) (i : Nat) : ({ id } : Slot).cellAt i = {} := by
  cases i <;> rfl

theorem cellAt_sized (hs : s.Sound) (h : s.count = 0) (n i : Nat) :
    (s.sized n).cellAt i = s.cellAt i := by
  have hone : s.cells.length = 1 := by rw [hs.length_cells, h]; rfl
  obtain ⟨c, hc⟩ := List.length_eq_one_iff.mp hone
  rw [cellAt, cellAt, sized, hc]
  cases i with
  | zero => rfl
  | succ i =>
      simp only [List.take_succ_cons, List.take_nil, List.cons_append, List.nil_append,
        List.getElem?_cons_succ, List.getElem?_replicate, List.getElem?_nil, Option.getD_none]
      split <;> rfl

theorem notes_fill {i : Nat} {times : List Int} (h : (s.cellAt i).Notes times) (j : Nat)
    (payload : Bytes) : ((s.fill j payload).cellAt i).Notes times := by
  unfold cellAt at h ⊢
  rw [fill, List.getElem?_modify]
  cases hc : s.cells[i]? with
  | none =>
      rw [hc] at h
      exact h
  | some c =>
      rw [hc] at h
      by_cases hj : j = i
      · simp only [if_pos hj]
        exact ⟨h.requests, h.lastRequest⟩
      · simp only [if_neg hj]
        exact h

/-- Putting a fragment in leaves what the cells note, also if the slot gets its size by it. -/
theorem notes_accept (hs : s.Sound) {i : Nat} {times : List Int}
    (h : (s.cellAt i).Notes times) (p : Packet) : ((s.accept p).cellAt i).Notes times := by
  refine notes_fill ?_ p.index.toNat p.payload
  by_cases hcount : s.count = 0
  · rw [if_pos hcount, cellAt_sized hs hcount]
    exact h
  · rw [if_neg hcount]
    exact h

theorem cellAt_asked {indices : List Nat} {i : Nat} (hi : i ∈ indices → i < s.cells.length)
    (now : Int) : (s.asked indices now).cellAt i =
      if i ∈ indices then (s.cellAt i).asked now else s.cellAt i := by
  rw [cellAt, getElem?_asked, cellAt]
  cases hc : s.cells[i]? with
  | some c => rfl
  | none =>
      have hnot : i ∉ indices := by
        intro hin
        rw [List.getElem?_eq_none_iff] at hc
        exact Nat.not_lt.mpr hc (hi hin)
      rw [if_neg hnot]
      rfl

end Slot

namespace Assembly

/-! ### What a run asked for -/

/-- The fragments that a step asked for, each with the time. -/
def Step.asks (st : Step) : List (Int × Wanted) :=
  match st.call, st.answer with
  | .request now, .wanted l => l.map (Prod.mk now)
  | _, _ => []

/-- The fragments that a run asked for, each with the time, in order. -/
def asks (steps : List Step) : List (Int × Wanted) :=
  steps.flatMap Step.asks

/-- The times at which a fragment is asked for, of those at which any is. -/
def timesOf (asks : List (Int × Wanted)) (w : Wanted) : List Int :=
  (asks.filter fun x => x.2 = w).map Prod.fst

theorem asks_concat (steps : List Step) (st : Step) : asks (steps ++ [st]) = asks steps ++ st.asks := by
  rw [asks, List.flatMap_append, List.flatMap_singleton, asks]

theorem timesOf_append (l m : List (Int × Wanted)) (w : Wanted) :
    timesOf (l ++ m) w = timesOf l w ++ timesOf m w := by
  rw [timesOf, List.filter_append, List.map_append, timesOf, timesOf]

/-- A round that names no fragment twice asks for it at one time, or not at all. -/
theorem timesOf_round {l : List Wanted} (hl : l.Nodup) (now : Int) (w : Wanted) :
    timesOf (l.map (Prod.mk now)) w = if w ∈ l then [now] else [] := by
  have hcount : timesOf (l.map (Prod.mk now)) w = List.replicate (l.count w) now := by
    simp [timesOf, List.filter_map, Function.comp_def, List.count_eq_length_filter,
      List.map_const', beq_eq_decide]
  rw [hcount]
  by_cases hw : w ∈ l
  · rw [List.count_eq_one_of_mem hl hw, if_pos hw]
    rfl
  · rw [List.count_eq_zero_of_not_mem hw, if_neg hw]
    rfl

theorem asks_receive (a : Assembly) (p : Packet) : (a.step (.receive p)).asks = [] := rfl

theorem asks_take (a : Assembly) (id : Int32) : (a.step (.take id)).asks = [] := rfl

theorem asks_request (a : Assembly) (now : Int) :
    (a.step (.request now)).asks = (a.request now).1.map (Prod.mk now) := rfl

namespace Ongoing

variable {a : Assembly} {newest : Int32}

theorem nodup_request (h : a.Ongoing newest) (now : Int) : (a.request now).1.Nodup := by
  rw [h.request_fst_eq_take]
  refine List.Nodup.sublist (List.take_sublist _ _) (h.pairwise_missing.imp ?_)
  rintro v w (hlt | ⟨-, hlt⟩) rfl
  · exact Int32.lt_irrefl hlt
  · exact UInt16.lt_irrefl _ hlt

end Ongoing

/-! ### No request is forgotten -/

/-- The cells note all requests of the run so far. -/
structure Noted (steps : List Step) (a : Assembly) : Prop where
  notes : ∀ s ∈ a, ∀ i : UInt16, (s.cellAt i.toNat).Notes (timesOf (asks steps) (s.id, i))
  /-- A unit that was asked for has its slot, or lost it to a younger one. -/
  present : ∀ w, timesOf (asks steps) w ≠ [] →
    ∃ s ∈ a, a.position s.id = a.position w.1 ∧ w.1 ≤ s.id

namespace Noted

variable {steps : List Step} {a : Assembly} {newest : Int32}

/-- Nothing was asked of a unit that is younger than what stands at its position. -/
theorem timesOf_eq_nil (h : Noted steps a) {id : Int32}
    (hyoung : ∀ s ∈ a, a.position s.id = a.position id → s.id < id) (i : UInt16) :
    timesOf (asks steps) (id, i) = [] := by
  by_contra hne
  obtain ⟨s, hs, hpos, hle⟩ := h.present (id, i) hne
  exact Int32.lt_irrefl (Int32.lt_of_le_of_lt hle (hyoung s hs hpos))

/-- A step that asks for nothing need only leave what the cells note. -/
theorem of_silent (h : Noted steps a) (ha : a.Sound) {c : Call} (hsilent : (a.step c).asks = [])
    (hslots : ∀ t ∈ (a.perform c).2, ∀ i : UInt16,
      (t.cellAt i.toNat).Notes (timesOf (asks steps) (t.id, i))) :
    Noted (steps ++ [a.step c]) (a.perform c).2 where
  notes := by
    rw [asks_concat, hsilent, List.append_nil]
    exact hslots
  present := by
    intro w hw
    rw [asks_concat, hsilent, List.append_nil] at hw
    exact exists_ge_perform ha c (h.present w hw)

theorem receive (h : Noted steps a) (ha : a.Sound) (p : Packet) :
    Noted (steps ++ [a.step (.receive p)]) (a.perform (.receive p)).2 := by
  refine h.of_silent ha (asks_receive a p) ?_
  intro t ht i
  change t ∈ (a.receive p).2 at ht
  rcases receive_cases ha p with hrefused | ⟨s, hs⟩
  · exact h.notes t (hrefused.mem_iff.mp ht) i
  · rw [receive_of_takesIn ha hs] at ht
    rcases (hs.mem_keepIn ha).mp ht with rfl | ⟨hold, -⟩
    · refine Slot.notes_accept (hs.sound_slot ha) ?_ p
      rw [Slot.id_accept]
      rcases hs.place with hold | ⟨rfl, hyoung⟩
      · exact h.notes s hold i
      · rw [h.timesOf_eq_nil hyoung, Slot.cellAt_blank]
        exact Cell.notes_blank
    · exact h.notes t hold i

theorem take (h : Noted steps a) (ha : a.Sound) (id : Int32) :
    Noted (steps ++ [a.step (.take id)]) (a.perform (.take id)).2 := by
  refine h.of_silent ha (asks_take a id) ?_
  intro t ht i
  rcases perform_take ha.toPlaced id with hp | ⟨s, hs, -, -, -, hp⟩
  · rw [hp] at ht
    exact h.notes t ht i
  · rw [hp] at ht
    obtain ⟨u, hu, rfl⟩ := (mem_handOn ha.toPlaced hs).mp ht
    have hnotes := h.notes u hu i
    unfold settle
    split <;> exact hnotes

/-- What the slot of a unit notes while the ring waits for it, also if it has none yet. -/
theorem notes_unit (h : Noted steps a) (ha : a.Ongoing newest) {id : Int32}
    (hid : a.Awaits newest id) (i : UInt16) :
    ((a.unit id).cellAt i.toNat).Notes (timesOf (asks steps) (id, i)) := by
  unfold unit
  cases hof : a.slotOf? id with
  | some s =>
      obtain ⟨hs, rfl⟩ := ha.sound.slotOf?_eq_some.mp hof
      exact h.notes s hs i
  | none =>
      have hother := ha.sound.slotOf?_eq_none.mp hof
      rw [h.timesOf_eq_nil, Option.getD_none, Slot.cellAt_blank]
      · exact Cell.notes_blank
      · intro s hs hpos
        exact Int32.lt_of_le_of_ne (ha.id_le_of_awaits hid hs hpos) (hother s hs)

theorem timesOf_request (ha : a.Ongoing newest) (now : Int) (steps : List Step) (w : Wanted) :
    timesOf (asks (steps ++ [a.step (.request now)])) w =
      timesOf (asks steps) w ++ if w ∈ (a.request now).1 then [now] else [] := by
  rw [asks_concat, timesOf_append, asks_request, timesOf_round (ha.nodup_request now)]

/-- A round notes what it asks for. -/
theorem request (h : Noted steps a) (ha : a.Ongoing newest) (now : Int) :
    Noted (steps ++ [a.step (.request now)]) (a.perform (.request now)).2 where
  notes := by
    intro t ht i
    obtain ⟨s, hs, hts⟩ := exists_of_mem_request ha.sound.toPlaced ha.newest_eq ht
    have hid : s.id = t.id := by rw [hts, Slot.id_asked]
    obtain ⟨hunit, hbefore⟩ : a.unit t.id = s ∧
        (s.cellAt i.toNat).Notes (timesOf (asks steps) (t.id, i)) := by
      rcases hs with hold | ⟨hnone, hblank, hle, hlt⟩
      · rw [unit, ha.sound.slotOf?_eq_some.mpr ⟨hold, hid⟩, ← hid]
        exact ⟨rfl, h.notes s hold i⟩
      · have hunit : a.unit t.id = s := by rw [unit, hnone, hblank, Option.getD_none]
        rw [← hunit]
        exact ⟨rfl, h.notes_unit ha (ha.awaits_iff_lt.mpr ⟨hle, hlt⟩) i⟩
    have hasked : i.toNat ∈ indicesOf (a.asksFor now newest) t.id ↔
        (t.id, i) ∈ (a.request now).1 := by
      rw [← ha.indicesFor_request, mem_indicesFor]
    have hcell : i.toNat ∈ indicesOf (a.asksFor now newest) t.id → i.toNat < s.cells.length := by
      intro hin
      have hmissing := ha.missing_of_mem_request (hasked.mp hin)
      rw [← hunit]
      exact Nat.lt_of_lt_of_le hmissing.overdue ((ha.gauged_unit t.id).reach_le newest)
    have hcellAt : t.cellAt i.toNat = if i.toNat ∈ indicesOf (a.asksFor now newest) t.id
        then (s.cellAt i.toNat).asked now else s.cellAt i.toNat := by
      rw [← Slot.cellAt_asked hcell, ← hts]
    rw [timesOf_request ha, hcellAt]
    by_cases hin : (t.id, i) ∈ (a.request now).1
    · rw [if_pos (hasked.mpr hin), if_pos hin]
      exact hbefore.asked now
    · rw [if_neg fun hc => hin (hasked.mp hc), if_neg hin, List.append_nil]
      exact hbefore
  present := by
    intro w hw
    by_cases hold : timesOf (asks steps) w = []
    · have hin : w ∈ (a.request now).1 := by
        rw [timesOf_request ha, hold, List.nil_append] at hw
        by_contra hnot
        exact hw (if_neg hnot)
      have hslot := ha.slots_of_visits (ha.visits_of_mem_request hin)
      have hid : ((a.unit w.1).asked (indicesFor (a.request now).1 w.1) now).id = w.1 := by
        rw [Slot.id_asked, ha.id_unit]
      exact ⟨_, Array.mem_of_getElem? hslot, by rw [hid], by rw [hid]; exact Int32.le_refl _⟩
    · exact exists_ge_perform ha.sound (.request now) (h.present w hold)

end Noted

/-! ### The budget of a fragment -/

/-- The requests for a fragment, made at `times`, are not too many and not too close. -/
structure Frugal (limits : Limits) (times : List Int) : Prop where
  length_le : times.length ≤ limits.maxRequests
  spaced : times.Pairwise fun t u => limits.rearm ≤ Time.elapsed t u

/-- One more request keeps to that if the cell that notes them allows it. -/
theorem Frugal.concat {limits : Limits} {times : List Int} (h : Frugal limits times)
    {now : Int} (hlength : times.length < limits.maxRequests)
    (hlast : ∀ t, times.getLast? = some t → limits.rearm ≤ Time.elapsed t now) :
    Frugal limits (times ++ [now]) where
  length_le := by
    rw [List.length_append, List.length_singleton]
    omega
  spaced := by
    refine List.pairwise_append.mpr ⟨h.spaced, List.pairwise_singleton _ _, ?_⟩
    intro t ht u hu
    rw [List.mem_singleton] at hu
    subst hu
    rcases List.eq_nil_or_concat' times with rfl | ⟨before, last, rfl⟩
    · cases ht
    have hnow := hlast last List.getLast?_concat
    rcases List.mem_append.mp ht with hbefore | heq
    · have hstep := (List.pairwise_append.mp h.spaced).2.2 t hbefore last (List.mem_singleton_self _)
      unfold Time.elapsed at hnow hstep ⊢
      omega
    · rw [List.mem_singleton.mp heq]
      exact hnow

/-- The requests of a run for each fragment are frugal. -/
structure Budgeted (limits : Limits) (steps : List Step) (a : Assembly) : Prop
    extends Noted steps a where
  frugal : ∀ w, Frugal limits (timesOf (asks steps) w)
  requested : a.counts.requested = (asks steps).length

namespace Budgeted

variable {steps : List Step} {a : Assembly} {limits : Limits}

theorem of_silent (h : Budgeted limits steps a) {c : Call} (hsilent : (a.step c).asks = [])
    (hnoted : Noted (steps ++ [a.step c]) (a.perform c).2)
    (hrequested : (a.perform c).2.counts.requested = a.counts.requested) :
    Budgeted limits (steps ++ [a.step c]) (a.perform c).2 where
  toNoted := hnoted
  frugal w := by
    rw [asks_concat, hsilent, List.append_nil]
    exact h.frugal w
  requested := by
    rw [asks_concat, hsilent, List.append_nil, hrequested, h.requested]

theorem request (h : Budgeted limits steps a) {newest : Int32} (ha : a.Ongoing newest)
    (hlimits : a.limits.maxRequests = limits.maxRequests ∧ a.limits.rearm = limits.rearm)
    (now : Int) :
    Budgeted limits (steps ++ [a.step (.request now)]) (a.perform (.request now)).2 where
  toNoted := h.toNoted.request ha now
  frugal w := by
    rw [Noted.timesOf_request ha]
    by_cases hw : w ∈ (a.request now).1
    · have hmissing := ha.missing_of_mem_request hw
      have hnotes := h.notes_unit ha hmissing.awaited w.2
      rw [if_pos hw]
      refine (h.frugal w).concat ?_ fun t ht => ?_
      · rw [← hlimits.1, ← hnotes.requests]
        exact hmissing.tries
      · rw [← hlimits.2]
        exact hmissing.rested t (hnotes.lastRequest.trans ht)
    · rw [if_neg hw, List.append_nil]
      exact h.frugal w
  requested := by
    show (a.request now).2.counts.requested = _
    rw [requested_request ha.sound.toPlaced, h.requested, asks_concat, asks_request,
      List.length_append, List.length_map]

end Budgeted

theorem requested_receive {a : Assembly} (h : a.Sound) (p : Packet) :
    (a.receive p).2.counts.requested = a.counts.requested := by
  rcases receive_cases h p with hrefused | ⟨s, hs⟩
  · rcases hrefused.rest with hr | hr
    · rw [hr]
    · rw [hr]
      rfl
  · rw [receive_of_takesIn h hs]
    show (a.keepIn p s).counts.requested = a.counts.requested
    rw [keepIn, makeRoom_eq]
    unfold noteKept
    cases p.resent <;> rfl

/-- **Every run keeps to its budget.** -/
theorem budgeted_run (channel : Channel) (limits : Limits) (calls : List Call) :
    Budgeted limits ((empty channel limits).trace calls) ((empty channel limits).run calls) := by
  induction calls using List.reverseRecOn with
  | nil =>
      refine ⟨⟨fun s hs => absurd hs (not_mem_empty channel limits s), fun w hw => ?_⟩, fun w => ?_,
        rfl⟩
      · exact absurd rfl hw
      · exact ⟨Nat.zero_le _, List.Pairwise.nil⟩
  | append_singleton calls c ih =>
      have hsound := (sound_empty channel limits).run calls
      have hlimits := (run_limits (sound_empty channel limits) calls).1
      rw [trace_concat, run_concat]
      cases c with
      | receive p =>
          exact ih.of_silent (asks_receive _ p) (ih.toNoted.receive hsound p)
            (requested_receive hsound p)
      | take id =>
          refine ih.of_silent (asks_take _ id) (ih.toNoted.take hsound id) ?_
          rcases perform_take hsound.toPlaced id with hp | ⟨s, -, -, -, -, hp⟩
          · rw [hp]
          · rw [hp]
            rfl
      | request now =>
          cases hnewest : ((empty channel limits).run calls).newest with
          | some newest =>
              refine ih.request (ongoing_run channel limits calls hnewest) ?_ now
              rw [hlimits]
              exact ⟨rfl, rfl⟩
          | none =>
              have hsame := request_of_newest_none hnewest now
              have hsilent : (((empty channel limits).run calls).step (.request now)).asks = [] := by
                rw [asks_request, request, hnewest]
                rfl
              refine ih.of_silent hsilent (ih.toNoted.of_silent hsound hsilent ?_) ?_
              · intro t ht
                change t ∈ (((empty channel limits).run calls).request now).2 at ht
                rw [hsame] at ht
                exact ih.notes t ht
              · show (((empty channel limits).run calls).request now).2.counts.requested = _
                rw [hsame]

/-- What one round asks for. -/
theorem answer_within (channel : Channel) (limits : Limits) (calls : List Call) {c : Call}
    {l : List Wanted} (hl : (((empty channel limits).run calls).perform c).1 = .wanted l) :
    l.Nodup ∧ l.length ≤ limits.maxPerRound := by
  have hsound := (sound_empty channel limits).run calls
  have hlimits := (run_limits (sound_empty channel limits) calls).1
  cases c with
  | receive p => cases hl
  | take id =>
      rcases perform_take hsound.toPlaced id with hp | ⟨s, -, -, -, -, hp⟩
      · rw [hp] at hl
        cases hl
      · rw [hp] at hl
        cases hl
  | request now =>
      change Answer.wanted (((empty channel limits).run calls).request now).1 = _ at hl
      rw [Answer.wanted.injEq] at hl
      cases hnewest : ((empty channel limits).run calls).newest with
      | none =>
          rw [request, hnewest] at hl
          rw [← hl]
          exact ⟨List.nodup_nil, Nat.zero_le _⟩
      | some newest =>
          have hongoing := ongoing_run channel limits calls hnewest
          rw [← hl]
          refine ⟨hongoing.nodup_request now, ?_⟩
          rw [hongoing.request_fst_eq_take, hlimits]
          exact List.length_take_le _ _

/--
**Requests keep to their budget.**  Over any run, at whatever times its rounds are,

* each fragment is asked for a limited number of times, and never again before the rearm
  time is over;
* no round asks for a fragment twice, or for more fragments than one round may;
* the count of requests is the number of fragments asked for, each as often as it was.
-/
theorem requests_stay_within_budget (channel : Channel) (limits : Limits) (calls : List Call) :
    let steps := (empty channel limits).trace calls
    (∀ w, (timesOf (asks steps) w).length ≤ limits.maxRequests ∧
      (timesOf (asks steps) w).Pairwise fun t u => limits.rearm ≤ Time.elapsed t u) ∧
    (∀ st ∈ steps, ∀ l, st.answer = .wanted l → l.Nodup ∧ l.length ≤ limits.maxPerRound) ∧
    ((empty channel limits).run calls).counts.requested = (asks steps).length := by
  intro steps
  have h := budgeted_run channel limits calls
  refine ⟨fun w => ⟨(h.frugal w).length_le, (h.frugal w).spaced⟩, ?_, h.requested⟩
  intro st hst l hl
  obtain ⟨before, c, rfl⟩ := exists_of_mem_trace hst
  exact answer_within channel limits before hl

end Assembly

end Framecast
