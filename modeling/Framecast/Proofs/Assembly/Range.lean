/-
A round of requests as it runs in place, and that no step of a ring leaves its range.

A round walks over units and, within a unit, over the indices of its slot, and opens slots as
it goes.  The walk over the indices is the walk over the cells (`Slot.askFrom?_eq`): the cells
are there as far as the walk goes, an index fits in 16 bits since the number of fragments
does, and a request fits in 8 since a fragment that used up its requests is not asked for.
The walk over the units keeps the slots of the ring within its limits, so the same holds
at every turn of it.

The number of a unit is counted up once for each turn, and at most to the last number there
is.  Where the last of all units was handed on, a round in place still looks at it, for it
cannot start beyond; it finds it taken and asks for nothing.

With this, whatever was called before, every operation of a ring stays in range.
-/
import Framecast.Proofs.Assembly.InPlace

namespace Framecast

namespace Slot

/-! ### The places of a slot -/

/-- Noting requests leaves everything else. -/
theorem like_asked (s : Slot) (indices : List Nat) (now : Int) : s.Like (s.asked indices now) := by
  refine ⟨rfl, List.ext_getElem? fun i => ?_⟩
  rw [List.getElem?_map, getElem?_asked, List.getElem?_map, Option.map_map]
  refine Option.map_congr fun c _ => ?_
  show (if i ∈ indices then c.asked now else c).payload = c.payload
  split <;> rfl

/-- To note a request is to note the first of several. -/
theorem asked_cons {s : Slot} {i : Nat} {c : Cell} (hc : s.cells[i]? = some c) {rest : List Nat}
    (hi : i ∉ rest) (now : Int) :
    ({ s with cells := s.cells.set i (c.asked now) } : Slot).asked rest now =
      s.asked (i :: rest) now := by
  have hcells : (s.cells.set i (c.asked now)).mapIdx (fun j d =>
      if j ∈ rest then d.asked now else d) =
        s.cells.mapIdx fun j d => if j ∈ i :: rest then d.asked now else d := by
    refine List.ext_getElem? fun j => ?_
    rw [List.getElem?_mapIdx, List.getElem?_mapIdx, List.getElem?_set]
    by_cases hj : i = j
    · subst hj
      have hlt := (List.getElem?_eq_some_iff.mp hc).1
      simp [hlt, hi, (List.getElem?_eq_some_iff.mp hc).2]
    · have hne : ¬ j = i := fun h => hj h.symm
      simp [hj, hne]
  simp only [asked, hcells]

/-- A cell that is not due is passed over. -/
theorem askFrom?_of_not_due {limits : Assembly.Limits} {now : Int} {n index : Nat}
    {wanted : Array Assembly.Wanted} {s : Slot} {c : Cell} (hc : s.cells[index]? = some c)
    (hbudget : ¬ limits.maxPerRound ≤ wanted.size) (hdue : ¬ c.isDue limits now = true) :
    s.askFrom? limits now (n + 1) index wanted = s.askFrom? limits now n (index + 1) wanted := by
  rw [askFrom?, if_neg hbudget, holds, hc]
  show (if c.payload.isSome = true then _ else _) = _
  by_cases hpayload : c.payload.isSome = true
  · rw [if_pos hpayload]
  rw [if_neg hpayload]
  by_cases hrequests : limits.maxRequests ≤ c.requests
  · simp [hrequests]
  · have hearly : (c.lastRequest.any fun t => Time.elapsed t now < limits.rearm) = true := by
      cases hlast : c.lastRequest with
      | none => simp_all [Cell.isDue]
      | some t => simp_all [Cell.isDue]
    simp only [Option.bind_eq_bind, Option.bind_some, if_neg hrequests, if_pos hearly]

/-- A cell that is due is asked for: one more request still fits in its field. -/
theorem askFrom?_of_due {limits : Assembly.Limits} {now : Int} {n index : Nat}
    {wanted : Array Assembly.Wanted} {s : Slot} {c : Cell} (hc : s.cells[index]? = some c)
    (hbudget : ¬ limits.maxPerRound ≤ wanted.size) (hdue : c.isDue limits now = true)
    (hlimit : limits.maxRequests < UInt8.size) (hindex : index < UInt16.size) :
    s.askFrom? limits now (n + 1) index wanted =
      ({ s with cells := s.cells.set index (c.asked now) } : Slot).askFrom? limits now n
        (index + 1) (wanted.push (s.id, UInt16.ofNat index)) := by
  simp only [Cell.isDue, Bool.and_eq_true, decide_eq_true_eq] at hdue
  obtain ⟨⟨hpayload, hrequests⟩, hlast⟩ := hdue
  have hempty : ¬ c.payload.isSome = true := by simpa using hpayload
  have hready : ¬ (c.lastRequest.any fun t => Time.elapsed t now < limits.rearm) = true := by
    cases hrequest : c.lastRequest with
    | none => simp
    | some t => simpa [hrequest] using hlast
  have hfits : c.requests + 1 < UInt8.size := by omega
  rw [askFrom?, if_neg hbudget, holds, hc]
  show (if c.payload.isSome = true then _ else _) = _
  simp only [if_neg hempty, Option.bind_eq_bind, Option.bind_some, if_neg hrequests.not_ge,
    if_neg hready, if_pos hfits, if_pos hindex]
  rfl

/-- **The walk over the places of a slot is the walk over its cells.** -/
theorem askFrom?_eq {limits : Assembly.Limits} (hlimit : limits.maxRequests < UInt8.size)
    (now : Int) {n index : Nat} {wanted : Array Assembly.Wanted} {s : Slot}
    (hlength : index + n ≤ s.cells.length) (hindex : index + n ≤ UInt16.size) :
    s.askFrom? limits now n index wanted =
      let indices := (Cell.dueFrom limits now (index + n) index (s.cells.drop index)).take
        (limits.maxPerRound - wanted.size)
      some (wanted ++ indices.map fun i => (s.id, UInt16.ofNat i), s.asked indices now) := by
  induction n generalizing index wanted s with
  | zero =>
      rw [Cell.dueFrom_of_le (by omega : index + 0 ≤ index)]
      simp [askFrom?]
  | succ n ih =>
      by_cases hbudget : limits.maxPerRound ≤ wanted.size
      · rw [askFrom?, if_pos hbudget, Nat.sub_eq_zero_of_le hbudget]
        simp
      have hlt : index < s.cells.length := by omega
      have hc : s.cells[index]? = some s.cells[index] := List.getElem?_eq_getElem hlt
      have hend : index + (n + 1) = index + 1 + n := by omega
      rw [List.drop_eq_getElem_cons hlt, Cell.dueFrom, hend]
      by_cases hdue : s.cells[index].isDue limits now = true
      · rw [askFrom?_of_due hc hbudget hdue hlimit (by omega), if_pos ⟨by omega, hdue⟩,
          ih (by rw [List.length_set]; omega) (by omega)]
        obtain ⟨left, hleft⟩ : ∃ left, limits.maxPerRound - wanted.size = left + 1 :=
          ⟨limits.maxPerRound - wanted.size - 1, by omega⟩
        have hnext : limits.maxPerRound -
            (wanted.push (s.id, UInt16.ofNat index)).size = left := by
          rw [Array.size_push]
          omega
        have hlater : index ∉ (Cell.dueFrom limits now (index + 1 + n) (index + 1)
            (s.cells.drop (index + 1))).take left := by
          intro hmem
          obtain ⟨hle, -⟩ := Cell.mem_dueFrom.mp (List.mem_of_mem_take hmem)
          omega
        simp only [hnext, hleft, List.drop_set_of_lt (Nat.lt_succ_self index), List.take_succ_cons,
          List.map_cons, asked_cons hc hlater]
        simp
      · rw [askFrom?_of_not_due hc hbudget hdue, if_neg fun hand => hdue hand.2,
          ih (by omega) (by omega)]

end Slot

namespace Assembly

/-! ### One unit -/

theorem limits_vacate (a : Assembly) (id : Int32) : (a.vacate id).limits = a.limits := by
  rw [vacate_eq]
  rfl

theorem Fitted.openBlank {a : Assembly} (h : a.Fitted) (id : Int32) :
    ((a.vacate id).put { id }).Fitted := by
  have hvacate := h.toPlaced.vacate id
  have hslots (t : Slot) : t ∈ (a.vacate id).put { id } → t = { id } ∨ t ∈ a := by
    intro ht
    rw [vacate_eq] at ht hvacate
    exact (hvacate.mem_put.mp ht).imp_right And.left
  have hlimits : ((a.vacate id).put { id }).limits = a.limits := limits_vacate a id
  refine ⟨hvacate.put _, fun t ht => ?_, fun t ht => ?_⟩
  · rcases hslots t ht with rfl | hold
    · exact Slot.Gauged.blank id
    · exact h.gauged t hold
  · rw [hlimits]
    rcases hslots t ht with rfl | hold
    · exact Slot.Within.blank id a.limits
    · exact h.within t hold

theorem Fitted.askUnit {a : Assembly} (h : a.Fitted) (now : Int) (newest id : Int32)
    (budget : Nat) : (a.askUnit now newest id budget).2.Fitted := by
  refine ⟨h.toPlaced.askUnit now newest id budget, fun t ht => ?_, fun t ht => ?_⟩
  · obtain ⟨s, hs, hts⟩ := exists_of_mem_askUnit h.toPlaced ht
    have hbefore : s.Gauged := by
      rcases hs with hold | ⟨-, -, rfl⟩
      · exact h.gauged s hold
      · exact Slot.Gauged.blank t.id
    rw [hts]
    exact hbefore.like (s.like_asked _ now)
  · obtain ⟨s, hs, hts⟩ := exists_of_mem_askUnit h.toPlaced ht
    have hid : s.id = t.id := by rw [hts, Slot.id_asked]
    rw [limits_askUnit h.toPlaced, hts]
    refine h.within_asked newest ?_ fun i hi => ?_
    · rw [hid]
      exact hs.imp_right And.right
    · rw [hid]
      split at hi
      · rename_i hunit
        rw [hunit]
        exact List.mem_of_mem_take hi
      · cases hi

/-- Asking for the slot of a unit in place. -/
theorem askSlotInPlace?_eq {a : Assembly} (h : a.Fitted)
    (hlimit : a.limits.maxRequests < UInt8.size) (now : Int) (newest : Int32)
    (wanted : Array Wanted) {s : Slot} (hs : s ∈ a) :
    a.askSlotInPlace? now newest wanted s =
      let asked := s.ask a.limits now newest (a.limits.maxPerRound - wanted.size)
      some (wanted ++ asked.1.map fun i => (s.id, UInt16.ofNat i), a.put asked.2) := by
  rw [Slot.ask_eq]
  unfold askSlotInPlace?
  by_cases hdone : (s.taken || s.isComplete) = true
  · have hnone : s.due a.limits now newest = [] := by rw [Slot.due, if_pos hdone]
    rw [if_pos hdone, hnone]
    simp [h.put_self hs]
  · have hgauged := h.gauged s hs
    have hle := hgauged.reach_le newest
    have hlt := hgauged.reach_lt newest
    have hsize : UInt16.size = 65536 := rfl
    rw [← hgauged.askLimit_eq] at hle hlt
    have hwalk : s.askFrom? a.limits now (s.askLimit newest) 0 wanted = _ :=
      Slot.askFrom?_eq hlimit now (by omega) (by omega)
    rw [if_neg hdone, hwalk, Slot.due, if_neg hdone]
    simp [h.write?_eq]

/-- A unit that has its slot is asked for through it, also if nothing is due. -/
theorem Placed.askUnit_of_mem {a : Assembly} (h : a.Placed) {s : Slot} (hs : s ∈ a) (now : Int)
    (newest : Int32) (budget : Nat) :
    a.askUnit now newest s.id budget =
      ((s.ask a.limits now newest budget).1, a.put (s.ask a.limits now newest budget).2) := by
  have hof : a.slotOf? s.id = some s := h.slotOf?_eq_some.mpr ⟨hs, rfl⟩
  simp only [Assembly.askUnit, hof, Slot.ask_eq]
  by_cases hnone : ((s.due a.limits now newest).take budget).isEmpty = true
  · rw [if_pos hnone, List.isEmpty_iff.mp hnone, Slot.asked_nil, h.put_self hs]
  · rw [if_neg hnone]

theorem any_slotAt? (a : Assembly) (id : Int32) :
    ((a.slotAt? id).any fun s => s.id = id) = (a.slotOf? id).isSome := by
  rw [slotOf?]
  cases a.slotAt? id with
  | none => rfl
  | some s => by_cases hid : s.id = id <;> simp [hid]

/-- **Asking for a unit in place is asking for it.** -/
theorem askUnitInPlace?_eq {a : Assembly} (h : a.Fitted)
    (hlimit : a.limits.maxRequests < UInt8.size) (now : Int) (newest id : Int32)
    (wanted : Array Wanted) :
    a.askUnitInPlace? now newest id wanted =
      let asked := a.askUnit now newest id (a.limits.maxPerRound - wanted.size)
      some (wanted ++ asked.1.map fun i => (id, UInt16.ofNat i), asked.2) := by
  unfold askUnitInPlace?
  simp only [h.look?_eq, Option.bind_eq_bind, Option.bind_some, any_slotAt?]
  cases hof : a.slotOf? id with
  | some s =>
      obtain ⟨hs, rfl⟩ := h.slotOf?_eq_some.mp hof
      have hat : a.slotAt? s.id = some s := h.slotAt?_eq_some.mpr ⟨hs, rfl⟩
      simp only [Option.isSome_some, not_true_eq_false, false_and, if_false, if_true, hat,
        askSlotInPlace?_eq h hlimit now newest wanted hs, h.toPlaced.askUnit_of_mem hs]
  | none =>
      by_cases hid : id = newest
      · subst hid
        simp [askUnit, hof]
      · -- The blank slot that is opened first leaves no trace but what it is asked for.
        have hopen := h.openBlank id
        have hlimits : ((a.vacate id).put { id }).limits = a.limits := limits_vacate a id
        have hat : ((a.vacate id).put { id }).slotAt? id = some { id } :=
          (h.toPlaced.vacate id).slotAt?_put rfl
        have hasked := askSlotInPlace?_eq hopen (hlimits.symm ▸ hlimit) now newest wanted
          ((h.toPlaced.vacate id).mem_put.mpr (Or.inl rfl))
        have hsame : ({ id } : Slot).id = (Slot.ask { id } a.limits now newest
            (a.limits.maxPerRound - wanted.size)).2.id := by rw [Slot.ask_eq, Slot.id_asked]
        simp only [hlimits, put_put _ hsame] at hasked
        simp only [Option.isSome_none, Bool.false_eq_true, not_false_eq_true, true_and, if_neg hid,
          if_false, h.evict?_eq, Option.bind_some, hopen.look?_eq, hat, hasked, askUnit, hof]

/-! ### Units in a row -/

/-- **Asking for one unit after another in place.**  The last unit of all ends the walk. -/
theorem askFromInPlace?_eq {n : Nat} {id : Int32} {wanted : Array Wanted} {a : Assembly}
    (h : a.Fitted) (hlimit : a.limits.maxRequests < UInt8.size) (now : Int) (newest : Int32)
    (hend : id.toInt + n ≤ 2147483648) :
    askFromInPlace? now newest n id wanted a =
      some (askFrom now newest n id.toInt (a.limits.maxPerRound - wanted.size) wanted a) := by
  induction n generalizing id wanted a with
  | zero => rfl
  | succ n ih =>
      by_cases hbudget : a.limits.maxPerRound ≤ wanted.size
      · rw [askFromInPlace?, if_pos hbudget, askFrom, if_pos (Nat.sub_eq_zero_of_le hbudget)]
      have hleft : a.limits.maxPerRound - wanted.size ≠ 0 := by omega
      rw [askFromInPlace?, if_neg hbudget, askUnitInPlace?_eq h hlimit, askFrom, if_neg hleft]
      simp only [Option.bind_eq_bind, Option.bind_some, Int32.ofInt_toInt]
      by_cases hlast : id = Int32.maxValue
      · have hmax : id.toInt = 2147483647 := by rw [hlast, toInt_maxValue]
        have hzero : n = 0 := by omega
        subst hzero
        rw [if_pos hlast]
        rfl
      · have hnot : id.toInt ≠ 2147483647 := fun hc =>
          hlast (Int32.toInt_inj.mp (hc.trans toInt_maxValue.symm))
        have hle := le_toInt id
        have hge := toInt_le id
        have hnext : (Int32.ofInt (id.toInt + 1)).toInt = id.toInt + 1 :=
          toInt_ofInt (by omega) (by omega)
        have hasked := h.askUnit now newest id (a.limits.maxPerRound - wanted.size)
        have hlimits : (a.askUnit now newest id (a.limits.maxPerRound - wanted.size)).2.limits =
            a.limits := limits_askUnit h.toPlaced
        rw [if_neg hlast, narrow?_eq (by omega) (by omega), Option.bind_some,
          ih hasked (by rw [hlimits]; exact hlimit) (by rw [hnext]; omega), hnext, hlimits,
          ← Array.length_toList, Array.toList_appendList, List.length_append, Array.length_toList,
          List.length_map, Nat.sub_sub]

/-! ### A whole round -/

theorem askStart?_eq {a : Assembly} (hpos : 0 < a.limits.size)
    (hsize : a.limits.size ≤ 2147483647) (newest : Int32) :
    ∃ start, a.askStart? newest = some start ∧
      start.toInt = min (a.askStart newest) 2147483647 := by
  have hnewest := toInt_le newest
  refine ⟨_, by rw [askStart?, windowStart?_eq hpos hsize]; rfl, ?_⟩
  unfold askStart
  cases a.lastTaken with
  | some t =>
      have ht := le_toInt t
      simp only [toInt_max, toInt_saturate]
      omega
  | none =>
      cases a.oldest with
      | some m =>
          have hm := le_toInt m
          have hm' := toInt_le m
          simp only [toInt_max, toInt_saturate]
          omega
      | none =>
          show newest.toInt = min newest.toInt 2147483647
          omega

/-- Nothing is asked for of the unit handed on last. -/
theorem Bounded.askUnit_lastTaken {a : Assembly} (h : a.Bounded) (now : Int) {newest : Int32}
    (hlast : a.lastTaken = some newest) (budget : Nat) :
    a.askUnit now newest newest budget = ([], a) := by
  unfold askUnit
  cases hof : a.slotOf? newest with
  | none => simp
  | some s =>
      obtain ⟨hs, hid⟩ := h.slotOf?_eq_some.mp hof
      have htaken := h.taken_of_lastTaken s hs (by rw [hid]; exact hlast)
      simp [Slot.ask, htaken]

/-- A round cannot start beyond the last unit of all unless that one was handed on. -/
theorem Bounded.lastTaken_of_askStart {a : Assembly} (h : a.Bounded) {newest : Int32}
    (hnewest : a.newest = some newest) (hbeyond : 2147483647 < a.askStart newest) :
    a.lastTaken = some newest ∧ newest.toInt = 2147483647 ∧ a.askStart newest = 2147483648 := by
  have hpos := h.size_pos
  have hmax := toInt_le newest
  cases hlast : a.lastTaken with
  | none =>
      cases holdest : a.oldest with
      | none =>
          simp only [askStart, hlast, holdest] at hbeyond
          omega
      | some m =>
          have hm := toInt_le m
          simp only [askStart, hlast, holdest] at hbeyond
          omega
  | some t =>
      obtain ⟨n, hn, hle⟩ := h.lastTaken_le t hlast
      rw [hnewest, Option.some.injEq] at hn
      subst hn
      rw [Int32.le_iff_toInt_le] at hle
      simp only [askStart, hlast] at hbeyond ⊢
      have heq : t = newest := Int32.toInt_inj.mp (by omega)
      refine ⟨by rw [heq], ?_, ?_⟩
      · omega
      · omega

/-- The walk of a round in place is the walk of the round. -/
theorem Bounded.walk_eq {a : Assembly} (h : a.Bounded) {newest start : Int32}
    (hnewest : a.newest = some newest)
    (hstart : start.toInt = min (a.askStart newest) 2147483647) (now : Int) (budget : Nat) :
    askFrom now newest (newest.toInt - start.toInt + 1).toNat start.toInt budget #[] a =
      askFrom now newest (newest.toInt - a.askStart newest + 1).toNat (a.askStart newest) budget
        #[] a := by
  by_cases hbeyond : 2147483647 < a.askStart newest
  · obtain ⟨hlast, hmax, hfirst⟩ := h.lastTaken_of_askStart hnewest hbeyond
    have hsame : start.toInt = newest.toInt := by omega
    have hone : (newest.toInt - newest.toInt + 1).toNat = 1 := by omega
    have hnone : (newest.toInt - a.askStart newest + 1).toNat = 0 := by omega
    rw [hsame, hone, hnone, askFrom, askFrom]
    split
    · rfl
    · simp [Int32.ofInt_toInt, h.askUnit_lastTaken now hlast, askFrom]
  · rw [hstart, Int.min_eq_left (by omega)]

/-- **A round in place is a round.** -/
theorem requestInPlace?_eq {a : Assembly} (h : a.Bounded) (hsize : a.limits.size ≤ 2147483647)
    (hlimit : a.limits.maxRequests < UInt8.size) (now : Int) :
    a.requestInPlace? now = some (a.request now) := by
  unfold requestInPlace? request
  cases hnewest : a.newest with
  | none => rfl
  | some newest =>
      obtain ⟨start, hstart, hint⟩ := askStart?_eq h.size_pos hsize newest
      have hmax := toInt_le newest
      have hmin := le_toInt start
      have hstop := toInt_le start
      have hend : start.toInt + (newest.toInt - start.toInt + 1).toNat ≤ 2147483648 := by omega
      simp only [hstart, Option.bind_eq_bind, Option.bind_some,
        askFromInPlace?_eq h.toFitted hlimit now newest hend, h.walk_eq hnewest hint]
      rfl

/-! ### Every operation -/

/-- **Every call in place is that call.** -/
theorem Bounded.performInPlace?_eq {a : Assembly} (h : a.Bounded)
    (hsize : a.limits.size ≤ 2147483647) (hlimit : a.limits.maxRequests < UInt8.size) (c : Call) :
    a.performInPlace? c = some (a.perform c) := by
  cases c with
  | receive p =>
      rw [performInPlace?, receiveInPlace?_eq h.toSound]
      rfl
  | take id =>
      rw [performInPlace?, takeInPlace?_eq h.toPlaced hsize, Assembly.perform]
      cases a.take? id with
      | none => rfl
      | some r => rfl
  | request now =>
      rw [performInPlace?, requestInPlace?_eq h hsize hlimit]
      rfl

/-- **The fields of a ring fit together in whatever state it is, and no step leaves its range.**
The ring may have as many places as a number of 32 bits can name, and a fragment as many
requests as one of 8 can count; then every call in place, whatever it is called with, gives an
answer, and the answer and the ring after it are those of the call. -/
theorem ring_represented_in_range (channel : Channel) (limits : Limits) (hpos : 1 ≤ limits.size)
    (hsize : (limits.size : Int) ≤ Int32.maxValue.toInt)
    (hrequests : limits.maxRequests < UInt8.size) (calls : List Call) :
    let a := (empty channel limits).run calls
    a.limits = limits ∧ a.Represented ∧ ∀ c, a.performInPlace? c = some (a.perform c) := by
  intro a
  have hbounded : a.Bounded := (bounded_empty channel limits).run calls
  have hlimits : a.limits = limits := by
    rw [(run_limits (sound_empty channel limits) calls).1]
    show { limits with size := max limits.size 1 } = limits
    rw [Nat.max_eq_left hpos]
  rw [toInt_maxValue] at hsize
  refine ⟨hlimits, represented_run channel limits calls, fun c => ?_⟩
  refine hbounded.performInPlace?_eq ?_ ?_ c
  · rw [hlimits]
    omega
  · rw [hlimits]
    exact hrequests

/-- A ring that has seen the first unit of all and handed on the last one stays in range. -/
theorem ends_of_range_represented :
    let a := (empty .video { size := 4 }).run
      [.receive { id := Int32.minValue, count := 2 }, .receive { id := Int32.maxValue, count := 1 },
        .take Int32.maxValue]
    a.oldest = some Int32.minValue ∧ a.lastTaken = some Int32.maxValue ∧ a.Represented ∧
      ∀ c, a.performInPlace? c = some (a.perform c) := by
  intro a
  have hrange := ring_represented_in_range .video { size := 4 } (by decide) (by decide) (by decide)
    [.receive { id := Int32.minValue, count := 2 }, .receive { id := Int32.maxValue, count := 1 },
      .take Int32.maxValue]
  exact ⟨by decide +kernel, by decide +kernel, hrange.2⟩

end Assembly

end Framecast
