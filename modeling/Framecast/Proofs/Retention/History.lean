/-
What a store finds, told by its history.

A store has seen a history of calls: fragments that were kept, and look-ups.  What stands at
a position is the fragment that was kept last with its index under a number of its room,
whatever else has been kept and looked up, and possibly marked as sent again.  `Tells` says
so of a store and its history; keeping a fragment makes it the last one at its position
only, and a look-up marks what it finds.

So a fragment is found exactly if it was the last one at its position, and a unit whose
number is less than one turn of rooms behind the newest is found whole.
-/
import Mathlib.Data.List.Induction
import Framecast.Proofs.Retention.Kept

namespace Framecast

/-- The fragment as it is found, marked as sent again. -/
def Packet.marked (p : Packet) : Packet := { p with resent := true }

namespace Store

/-- One call of a store. -/
inductive Call where
  /-- A fragment is kept, if there is a place for it. -/
  | keep (p : Packet)
  | look (id : Int32) (index : UInt16)
  deriving DecidableEq, Repr

/-- The fragment that a call keeps. -/
def Call.kept? : Call → Option Packet
  | keep p => some p
  | look .. => none

def Call.run (s : Store) : Call → Store
  | keep p => (s.insert p).2
  | look id index => (s.find? id index).2

/-- The store after some calls. -/
def after (s : Store) (calls : List Call) : Store :=
  calls.foldl Call.run s

/-- The fragments that were kept, the last one first. -/
def lastKept (calls : List Call) : List Packet :=
  (calls.filterMap Call.kept?).reverse

/-- The fragment kept last with this index under a number congruent to this one. -/
def latest? (units : Nat) (calls : List Call) (id : Int32) (index : UInt16) : Option Packet :=
  (lastKept calls).find? fun p =>
    p.index = index ∧ p.id.toInt % (units : Int) = id.toInt % (units : Int)

/-- The fragment kept last with this index under this very number. -/
def own? (calls : List Call) (id : Int32) (index : UInt16) : Option Packet :=
  (lastKept calls).find? fun p => p.index = index ∧ p.id = id

variable {s : Store} {calls : List Call} {id : Int32} {index : UInt16} {p q : Packet} {i : Nat}

/-! ### One more call -/

theorem after_concat (s : Store) (calls : List Call) (call : Call) :
    s.after (calls ++ [call]) = call.run (s.after calls) := by
  rw [after, List.foldl_append]
  rfl

theorem lastKept_keep (calls : List Call) (p : Packet) :
    lastKept (calls ++ [.keep p]) = p :: lastKept calls := by
  simp [lastKept, Call.kept?]

theorem lastKept_look (calls : List Call) (id : Int32) (index : UInt16) :
    lastKept (calls ++ [.look id index]) = lastKept calls := by
  simp [lastKept, Call.kept?]

theorem units_run (s : Store) (call : Call) : (call.run s).units = s.units := by
  cases call with
  | keep p => exact units_insert s p
  | look id index => exact units_find? s id index

theorem places_run (s : Store) (call : Call) : (call.run s).places = s.places := by
  cases call with
  | keep p => exact places_insert s p
  | look id index => exact places_find? s id index

/-- Calls leave the geometry of a store. -/
theorem position?_run (s : Store) (call : Call) (id : Int32) (index : UInt16) :
    (call.run s).position? id index = s.position? id index := by
  unfold position? room
  rw [units_run, places_run]

/-! ### What stands at a position -/

/-- What stands at a position, as it is found there. -/
def standing (s : Store) (i : Nat) : Option Packet :=
  s.kept[i]?.join.map Packet.marked

theorem standing_set_self (h : i < s.kept.size) (p : Packet) :
    standing { s with kept := s.kept.setIfInBounds i (some p) } i = some p.marked := by
  unfold standing
  rw [Array.getElem?_setIfInBounds_self_of_lt h]
  rfl

theorem standing_set_of_ne {j : Nat} (h : j ≠ i) (p : Packet) :
    standing { s with kept := s.kept.setIfInBounds j (some p) } i = s.standing i := by
  unfold standing
  rw [Array.getElem?_setIfInBounds_ne h]

/-- A look-up only marks what stands in a store. -/
theorem standing_find? (s : Store) (id : Int32) (index : UInt16) (i : Nat) :
    (s.find? id index).2.standing i = s.standing i := by
  rcases find?_snd s id index with hsame | ⟨j, q, hq, hset⟩
  · rw [hsame]
  · rw [hset]
    by_cases hij : j = i
    · subst hij
      obtain ⟨hlt, -⟩ := Array.getElem?_eq_some_iff.mp hq
      rw [standing_set_self hlt, standing, hq]
      rfl
    · exact standing_set_of_ne hij _

/-- What is found is what stands at the position, if it has the number asked for. -/
theorem find?_fst (hi : s.position? id index = some i) :
    (s.find? id index).1 = (s.standing i).filter fun p => p.id = id ∧ p.index = index := by
  unfold find? standing
  rw [hi]
  dsimp only
  cases s.kept[i]?.join with
  | none => rfl
  | some p =>
      have hmarked : (p.marked.id = id ∧ p.marked.index = index) ↔ (p.id = id ∧ p.index = index) :=
        Iff.rfl
      by_cases hsame : p.id = id ∧ p.index = index
      · simp [hsame, Option.filter, Packet.marked]
      · simp [hsame, Option.filter, Packet.marked]

theorem find?_fst_of_none (hi : s.position? id index = none) : (s.find? id index).1 = none := by
  unfold find?
  rw [hi]

/-! ### A store and its history -/

/-- At every position of the store stands what its history kept there last. -/
structure Tells (s : Store) (calls : List Call) : Prop where
  sound : s.Sound
  standing {id : Int32} {index : UInt16} {i : Nat} (hi : s.position? id index = some i) :
    s.standing i = (latest? s.units calls id index).map Packet.marked

namespace Tells

theorem empty (maxUnit units : Nat) : Tells (Store.empty maxUnit units) [] where
  sound := sound_empty maxUnit units
  standing {id index i} hi := by
    have hlt := lt_size_of_position? (sound_empty maxUnit units) hi
    have hnone : (Store.empty maxUnit units).kept[i]? = some none := by
      rw [Array.getElem?_eq_getElem hlt]
      exact congrArg some (Array.getElem_replicate ..)
    rw [Store.standing, hnone]
    rfl

/-- A fragment that is kept is the last one at its position and at no other. -/
theorem keep (h : Tells s calls) (p : Packet) : Tells (s.insert p).2 (calls ++ [.keep p]) where
  sound := h.sound.insert p
  standing {id index i} hi := by
    have hplace : s.position? id index = some i := by
      rw [← hi]
      exact (position?_run s (.keep p) id index).symm
    rw [units_insert, latest?, lastKept_keep, List.find?_cons]
    cases hj : s.position? p.id p.index with
    | none =>
        -- There is no place for its index, so it is not the index of this position.
        have hne : p.index ≠ index := by
          intro heq
          rw [heq] at hj
          obtain ⟨hlt, -⟩ := position?_eq_some.mp hplace
          rw [position?, if_pos hlt] at hj
          cases hj
        rw [insert_of_none hj, decide_eq_false fun hc => hne hc.1]
        exact h.standing hplace
    | some j =>
        rw [insert_of_position? hj]
        by_cases hij : j = i
        · rw [hij] at hj
          obtain ⟨hroom, hindex⟩ := position?_inj hj hplace
          rw [decide_eq_true ⟨hindex, (room_eq_iff h.sound).mp hroom⟩]
          rw [hij]
          exact standing_set_self (lt_size_of_position? h.sound hplace) p
        · have hother : ¬ (p.index = index ∧
              p.id.toInt % (s.units : Int) = id.toInt % (s.units : Int)) := by
            rintro ⟨hindex, hmod⟩
            have hroom := (room_eq_iff h.sound).mpr hmod
            obtain ⟨-, rfl⟩ := position?_eq_some.mp hj
            obtain ⟨-, rfl⟩ := position?_eq_some.mp hplace
            rw [hroom, hindex] at hij
            exact hij rfl
          rw [decide_eq_false hother, standing_set_of_ne hij]
          exact h.standing hplace

theorem look (h : Tells s calls) (id : Int32) (index : UInt16) :
    Tells (s.find? id index).2 (calls ++ [.look id index]) where
  sound := h.sound.find? id index
  standing {x k i} hi := by
    have hplace : s.position? x k = some i := by
      rw [← hi]
      exact (position?_run s (.look id index) x k).symm
    rw [units_find?, latest?, lastKept_look, standing_find?]
    exact h.standing hplace

theorem run (h : Tells s calls) (call : Call) : Tells (call.run s) (calls ++ [call]) := by
  cases call with
  | keep p => exact h.keep p
  | look id index => exact h.look id index

end Tells

/-- **A store stands as its history tells.** -/
theorem tells_after (maxUnit units : Nat) (calls : List Call) :
    Tells ((empty maxUnit units).after calls) calls ∧
      ((empty maxUnit units).after calls).units = max units 1 ∧
      ((empty maxUnit units).after calls).places = placesFor maxUnit := by
  induction calls using List.reverseRecOn with
  | nil => exact ⟨.empty maxUnit units, rfl, rfl⟩
  | append_singleton calls call ih =>
      obtain ⟨htells, hunits, hplaces⟩ := ih
      rw [after_concat, units_run, places_run]
      exact ⟨htells.run call, hunits, hplaces⟩

/-- What is found is what was kept last in the room, if it has the number asked for. -/
theorem Tells.find? (h : Tells s calls) (hplace : index.toNat < s.places) :
    (s.find? id index).1 =
      ((latest? s.units calls id index).filter fun p => p.id = id).map Packet.marked := by
  have hi : s.position? id index = some (s.room id * s.places + index.toNat) :=
    position?_eq_some.mpr ⟨hplace, rfl⟩
  rw [find?_fst hi, h.standing hi]
  cases hlatest : latest? s.units calls id index with
  | none => rfl
  | some p =>
      have hindex := List.find?_some hlatest
      rw [decide_eq_true_eq] at hindex
      by_cases hid : p.id = id
      · simp [Option.filter, Packet.marked, hid, hindex.1]
      · simp [Option.filter, Packet.marked, hid]

/-! ### Units that follow each other -/

/-- Among units that were kept in the order of their numbers, the last fragment of a room is
of the unit itself if no unit lies a turn of rooms ahead. -/
theorem latest?_of_ascending {units : Nat}
    (hascend : (lastKept calls).Pairwise fun q p => p.id ≤ q.id) (hp : p ∈ lastKept calls)
    (hnear : ∀ q ∈ lastKept calls, q.id.toInt < p.id.toInt + (units : Int)) :
    ∃ q, latest? units calls p.id p.index = some q ∧ q.id = p.id := by
  have hself : decide (p.index = p.index ∧
      p.id.toInt % (units : Int) = p.id.toInt % (units : Int)) = true := decide_eq_true ⟨rfl, rfl⟩
  have hsome : (latest? units calls p.id p.index).isSome := by
    rw [latest?, List.find?_isSome]
    exact ⟨p, hp, hself⟩
  obtain ⟨q, hq⟩ := Option.isSome_iff_exists.mp hsome
  refine ⟨q, hq, ?_⟩
  obtain ⟨hmatch, newer, older, hlist, hnewer⟩ := List.find?_eq_some_iff_append.mp hq
  rw [decide_eq_true_eq] at hmatch
  have hnot : p ∉ newer := fun hc => by simpa using hnewer p hc
  rw [hlist, List.mem_append, or_iff_right hnot, List.mem_cons] at hp
  rcases hp with rfl | holder
  · rfl
  · rw [hlist] at hascend
    have hle : p.id ≤ q.id :=
      (List.pairwise_cons.mp (List.pairwise_append.mp hascend).2.1).1 p holder
    have hlt := hnear q (List.mem_of_find?_eq_some hq)
    rw [Int32.le_iff_toInt_le] at hle
    have hdvd : (units : Int) ∣ q.id.toInt - p.id.toInt := Int.ModEq.dvd hmatch.2.symm
    have hzero : q.id.toInt - p.id.toInt = 0 :=
      Int.eq_zero_of_dvd_of_nonneg_of_lt (by omega) (by omega) hdvd
    exact Int32.toInt_inj.mp (by omega)

/-- If the last fragment of the room is of the unit itself, it is the unit's last. -/
theorem own?_eq_latest? {units : Nat} (hlatest : latest? units calls id index = some q)
    (hid : q.id = id) : own? calls id index = some q := by
  obtain ⟨hmatch, newer, older, hlist, hnewer⟩ := List.find?_eq_some_iff_append.mp hlatest
  rw [decide_eq_true_eq] at hmatch
  refine List.find?_eq_some_iff_append.mpr
    ⟨decide_eq_true ⟨hmatch.1, hid⟩, newer, older, hlist, fun r hr => ?_⟩
  have hother := hnewer r hr
  rw [Bool.not_eq_true', decide_eq_false_iff_not] at hother ⊢
  rintro ⟨hindex, rfl⟩
  exact hother ⟨hindex, rfl⟩

/-! ### What is found -/

/-- **A store finds what it kept last, and forgets only what was overwritten.**  After any
calls of a fresh store,

  * a look-up finds a fragment exactly if there is a place for the index and the last one kept
    with this index in the room has the number asked for, and then it finds that fragment,
    marked as sent again and otherwise as it was kept;
  * a fragment is kept exactly if there is a place for its index, and otherwise nothing changes;
  * every position is one of the table's, one row of places for each room;
  * of units that were kept in the order of their numbers, those less than a turn of rooms
    behind the newest are found, each fragment as it was kept last. -/
theorem finds_what_was_kept_last (maxUnit units : Nat) (calls : List Call) :
    let s := (empty maxUnit units).after calls
    (∀ id index p, (s.find? id index).1 = some p ↔
      index.toNat < placesFor maxUnit ∧
        ∃ q, latest? (max units 1) calls id index = some q ∧ q.id = id ∧
          p = { q with resent := true }) ∧
    (∀ p, ((s.insert p).1 = true ↔ p.index.toNat < placesFor maxUnit) ∧
      ((s.insert p).1 = false → (s.insert p).2 = s)) ∧
    (s.kept.size = max units 1 * placesFor maxUnit ∧
      ∀ id index i, s.position? id index = some i → i < s.kept.size) ∧
    ((lastKept calls).Pairwise (fun q p => p.id ≤ q.id) →
      ∀ p ∈ lastKept calls, p.index.toNat < placesFor maxUnit →
        (∀ q ∈ lastKept calls, q.id.toInt < p.id.toInt + (max units 1 : Nat)) →
          ∃ q, own? calls p.id p.index = some q ∧
            (s.find? p.id p.index).1 = some { q with resent := true }) := by
  intro s
  obtain ⟨htells, hunits, hplaces⟩ := tells_after maxUnit units calls
  change Tells s calls at htells
  change s.units = max units 1 at hunits
  change s.places = placesFor maxUnit at hplaces
  rw [← hunits, ← hplaces]
  refine ⟨fun id index p => ?_, fun p => ?_, ⟨htells.sound.size_kept, fun id index i hi => ?_⟩,
    fun hascend p hp hplace hnear => ?_⟩
  · by_cases hplace : index.toNat < s.places
    · rw [htells.find? hplace, Option.map_eq_some_iff]
      simp only [Option.filter_eq_some_iff, decide_eq_true_eq, and_assoc, hplace, true_and]
      exact exists_congr fun q => and_congr_right fun _ => and_congr_right fun _ => eq_comm
    · have hnone : s.position? id index = none := if_neg hplace
      rw [find?_fst_of_none hnone]
      exact iff_of_false (Option.some_ne_none p).symm fun h => hplace h.1
  · by_cases hplace : p.index.toNat < s.places
    · rw [insert_of_position? (position?_eq_some.mpr ⟨hplace, rfl⟩)]
      exact ⟨iff_of_true rfl hplace, fun h => Bool.noConfusion h⟩
    · rw [insert_of_none (if_neg hplace)]
      exact ⟨iff_of_false Bool.noConfusion hplace, fun _ => rfl⟩
  · exact lt_size_of_position? htells.sound hi
  · obtain ⟨q, hlatest, hid⟩ := latest?_of_ascending hascend hp hnear
    refine ⟨q, own?_eq_latest? hlatest hid, ?_⟩
    rw [htells.find? hplace, hlatest, Option.filter_some, decide_eq_true hid]
    rfl

/-- Three units in two rooms, the first of them looked up before it is overwritten. -/
def threeUnits : List Call :=
  let fragment (id : Int32) (index : UInt16) : Packet :=
    { channel := .video, id, index, count := 2, payload := [index.toUInt8, 7] }
  [.keep (fragment (-1) 0), .look (-1) 0, .keep (fragment 0 0), .keep (fragment 0 1), .look 0 0,
    .keep (fragment 1 0)]

/-- Of three units the one before the last is still found, the first one is not, and no third
fragment is kept of any. -/
theorem second_of_three_is_found :
    let s := (empty 100 2).after threeUnits
    (lastKept threeUnits).Pairwise (fun q p => p.id ≤ q.id) ∧
      (s.find? 0 0).1 =
        some { channel := .video, id := 0, count := 2, resent := true, payload := [0, 7] } ∧
      (s.find? (-1) 0).1 = none ∧ (s.insert { channel := .video, index := 2 }).1 = false := by
  intro s
  obtain ⟨hfind, hkeep, -, hlatest⟩ := finds_what_was_kept_last 100 2 threeUnits
  have hascend : (lastKept threeUnits).Pairwise fun q p => p.id ≤ q.id := by decide
  refine ⟨hascend, ?_, ?_, ?_⟩
  · obtain ⟨q, hown, hfound⟩ := hlatest hascend
      { channel := .video, id := 0, count := 2, payload := [0, 7] } (by decide) (by decide)
      (by decide)
    have hq : own? threeUnits 0 0 =
        some { channel := .video, id := 0, count := 2, payload := [0, 7] } := by decide
    rw [hown, Option.some.injEq] at hq
    rw [hq] at hfound
    exact hfound
  · refine Option.eq_none_iff_forall_ne_some.mpr fun p hp => ?_
    obtain ⟨-, q, hq, hid, -⟩ := (hfind (-1) 0 p).mp hp
    have hother : latest? (max 2 1) threeUnits (-1) 0 =
        some { channel := .video, id := 1, count := 2, payload := [0, 7] } := by decide
    rw [hother, Option.some.injEq] at hq
    rw [← hq] at hid
    exact absurd hid (by decide)
  · rw [← Bool.not_eq_true, (hkeep { channel := .video, index := 2 }).1]
    decide

end Store

end Framecast
