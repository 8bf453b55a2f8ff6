/-
What a store recalls.

A store recalls a fragment if the fragment stands at its position, whether or not it
is marked as sent again.  Two fragments share a position only if they have the same
index and their units share a room.  So a fragment that was kept is recalled until
another one of its index comes from a unit of its room, and looking fragments up only
marks them.

The stores of a connection recall what the store of the fragment's channel does.
-/
import Mathlib.Data.Int.ModEq
import Framecast.Proofs.Node.Registration
import Framecast.Retention.Registry

namespace Framecast

namespace Store

/-- A store has a row of places for each room. -/
structure Sound (s : Store) : Prop where
  units_pos : 0 < s.units
  size_kept : s.kept.size = s.units * s.places

variable {s : Store} {p q : Packet}

theorem sound_empty (maxUnit units : Nat) : (empty maxUnit units).Sound where
  units_pos := by
    show 0 < max units 1
    omega
  size_kept := Array.size_replicate

/-! ### Positions -/

theorem room_lt (h : s.Sound) (id : Int32) : s.room id < s.units := by
  have hpos := h.units_pos
  have hlt := Int.emod_lt_of_pos id.toInt (by omega : (0 : Int) < s.units)
  have hnonneg := Int.emod_nonneg id.toInt (by omega : (s.units : Int) ≠ 0)
  unfold room
  omega

/-- Two units that share a room are at least as far apart as there are rooms. -/
theorem add_units_le_of_room_eq (h : s.Sound) {x y : Int32} (hroom : s.room x = s.room y)
    (hlt : x < y) : x.toInt + (s.units : Int) ≤ y.toInt := by
  have hpos := h.units_pos
  have hx := Int.emod_nonneg x.toInt (by omega : (s.units : Int) ≠ 0)
  have hy := Int.emod_nonneg y.toInt (by omega : (s.units : Int) ≠ 0)
  have hmod : x.toInt % (s.units : Int) = y.toInt % (s.units : Int) := by
    unfold room at hroom
    omega
  have hdvd : (s.units : Int) ∣ y.toInt - x.toInt := Int.ModEq.dvd hmod
  have hdiff : 0 < y.toInt - x.toInt := by
    have := Int32.lt_iff_toInt_lt.mp hlt
    omega
  have := Int.le_of_dvd hdiff hdvd
  omega

theorem position?_eq_some {id : Int32} {index : UInt16} {i : Nat} :
    s.position? id index = some i ↔
      index.toNat < s.places ∧ i = s.room id * s.places + index.toNat := by
  unfold position?
  split
  · rename_i h
    simp [h, eq_comm]
  · rename_i h
    simp [h]

theorem lt_size_of_position? (h : s.Sound) {id : Int32} {index : UInt16} {i : Nat}
    (hi : s.position? id index = some i) : i < s.kept.size := by
  obtain ⟨hlt, rfl⟩ := position?_eq_some.mp hi
  have hroom := Nat.mul_le_mul_right s.places (Nat.succ_le_of_lt (room_lt h id))
  rw [Nat.succ_mul] at hroom
  rw [h.size_kept]
  omega

/-- A position tells the room and the index. -/
theorem position?_inj {x y : Int32} {j k : UInt16} {i : Nat} (hx : s.position? x j = some i)
    (hy : s.position? y k = some i) : s.room x = s.room y ∧ j = k := by
  obtain ⟨hj, rfl⟩ := position?_eq_some.mp hx
  obtain ⟨hk, heq⟩ := position?_eq_some.mp hy
  have hroom : s.room x = s.room y := by
    have hdiv := congrArg (· / s.places) heq
    simpa [Nat.mul_comm _ s.places, Nat.mul_add_div (Nat.zero_lt_of_lt hj),
      Nat.div_eq_of_lt hj, Nat.div_eq_of_lt hk] using hdiv
  refine ⟨hroom, UInt16.toNat_inj.mp ?_⟩
  rw [hroom] at heq
  omega

/-! ### Recalling -/

/-- Two fragments that are kept at different positions. -/
def Apart (s : Store) (p q : Packet) : Prop :=
  s.room p.id ≠ s.room q.id ∨ p.index ≠ q.index

/-- The fragment stands at its position, marked or not. -/
def Recalls (s : Store) (p : Packet) : Prop :=
  ∃ i, s.position? p.id p.index = some i ∧ ∃ r, s.kept[i]? = some (some { p with resent := r })

/-- **A fragment that is recalled is found,** marked as sent again. -/
theorem find?_of_recalls (h : s.Recalls p) :
    (s.find? p.id p.index).1 = some { p with resent := true } := by
  obtain ⟨i, hi, r, hget⟩ := h
  simp [find?, hi, hget]

theorem insert_of_position? {i : Nat} (hi : s.position? q.id q.index = some i) :
    s.insert q = (true, { s with kept := s.kept.setIfInBounds i (some q) }) := by
  simp [insert, hi]

theorem insert_of_none (hi : s.position? q.id q.index = none) : s.insert q = (false, s) := by
  simp [insert, hi]

/-- Looking a fragment up changes nothing, or marks what was found. -/
theorem find?_snd (s : Store) (id : Int32) (index : UInt16) :
    (s.find? id index).2 = s ∨
      ∃ i q, s.kept[i]? = some (some q) ∧
        (s.find? id index).2 =
          { s with kept := s.kept.setIfInBounds i (some { q with resent := true }) } := by
  unfold find?
  cases s.position? id index with
  | none => exact Or.inl rfl
  | some i =>
      dsimp only
      cases hget : s.kept[i]?.join with
      | none => exact Or.inl rfl
      | some q =>
          dsimp only
          by_cases hsame : q.id = id ∧ q.index = index
          · rw [if_pos hsame]
            exact Or.inr ⟨i, q, Option.join_eq_some_iff.mp hget, rfl⟩
          · rw [if_neg hsame]
            exact Or.inl rfl

theorem Sound.insert (h : s.Sound) (q : Packet) : (s.insert q).2.Sound := by
  cases hi : s.position? q.id q.index with
  | none =>
      rw [insert_of_none hi]
      exact h
  | some i =>
      rw [insert_of_position? hi]
      exact ⟨h.units_pos, by simpa using h.size_kept⟩

theorem Sound.find? (h : s.Sound) (id : Int32) (index : UInt16) : (s.find? id index).2.Sound := by
  rcases find?_snd s id index with hsame | ⟨i, q, -, hset⟩
  · rw [hsame]
    exact h
  · rw [hset]
    exact ⟨h.units_pos, by simpa using h.size_kept⟩

/-- A fragment for whose index there is a place is recalled once it was kept. -/
theorem recalls_insert_self (h : s.Sound) (hplace : p.index.toNat < s.places) :
    (s.insert p).2.Recalls p := by
  have hi : s.position? p.id p.index = some (s.room p.id * s.places + p.index.toNat) :=
    position?_eq_some.mpr ⟨hplace, rfl⟩
  rw [insert_of_position? hi]
  refine ⟨_, hi, p.resent, ?_⟩
  exact Array.getElem?_setIfInBounds_self_of_lt (lt_size_of_position? h hi)

/-- A fragment of another index or of another room does not push it out. -/
theorem recalls_insert_of_ne (h : s.Recalls p)
    (hne : s.Apart q p) : (s.insert q).2.Recalls p := by
  obtain ⟨i, hi, r, hget⟩ := h
  cases hj : s.position? q.id q.index with
  | none =>
      rw [insert_of_none hj]
      exact ⟨i, hi, r, hget⟩
  | some j =>
      have hij : j ≠ i := by
        intro hji
        rw [hji] at hj
        obtain ⟨hroom, hindex⟩ := position?_inj hj hi
        rcases hne with hc | hc
        · exact hc hroom
        · exact hc hindex
      rw [insert_of_position? hj]
      refine ⟨i, hi, r, ?_⟩
      rw [← hget]
      exact Array.getElem?_setIfInBounds_ne hij

/-- Looking fragments up makes a store forget nothing. -/
theorem recalls_find? (h : s.Recalls p) (id : Int32) (index : UInt16) :
    (s.find? id index).2.Recalls p := by
  obtain ⟨i, hi, r, hget⟩ := h
  rcases find?_snd s id index with hsame | ⟨j, q, hq, hset⟩
  · rw [hsame]
    exact ⟨i, hi, r, hget⟩
  · rw [hset]
    by_cases hij : j = i
    · subst hij
      have hpq : q = { p with resent := r } := by
        rw [hget] at hq
        simpa using hq.symm
      refine ⟨j, hi, true, ?_⟩
      have hlt : j < s.kept.size := (Array.getElem?_eq_some_iff.mp hget).1
      rw [hpq]
      exact Array.getElem?_setIfInBounds_self_of_lt hlt
    · refine ⟨i, hi, r, ?_⟩
      rw [← hget]
      exact Array.getElem?_setIfInBounds_ne hij

/-! ### Many fragments -/

/-- Keeps fragments one after another. -/
def insertAll (s : Store) (packets : List Packet) : Store :=
  packets.foldl (fun s p => (s.insert p).2) s

theorem units_insert (s : Store) (q : Packet) : (s.insert q).2.units = s.units := by
  unfold insert
  split <;> rfl

theorem places_insert (s : Store) (q : Packet) : (s.insert q).2.places = s.places := by
  unfold insert
  split <;> rfl

theorem room_insert (s : Store) (q : Packet) (id : Int32) :
    (s.insert q).2.room id = s.room id := by
  rw [room, room, units_insert]

theorem Sound.insertAll (h : s.Sound) (packets : List Packet) : (s.insertAll packets).Sound := by
  induction packets generalizing s with
  | nil => exact h
  | cons q rest ih => exact ih (h.insert q)

theorem recalls_insertAll_of_apart (h : s.Recalls p) {packets : List Packet}
    (hapart : ∀ q ∈ packets, s.Apart q p) : (s.insertAll packets).Recalls p := by
  induction packets generalizing s with
  | nil => exact h
  | cons q rest ih =>
      refine ih (recalls_insert_of_ne h (hapart q (List.mem_cons_self ..))) fun r hr => ?_
      have hr' := hapart r (List.mem_cons_of_mem q hr)
      rw [Apart, room_insert, room_insert]
      exact hr'

/-- **Of fragments kept at different positions, none is forgotten.** -/
theorem recalls_insertAll (h : s.Sound) {packets : List Packet}
    (hplace : ∀ q ∈ packets, q.index.toNat < s.places)
    (hapart : packets.Pairwise fun q r => s.Apart r q) (hp : p ∈ packets) :
    (s.insertAll packets).Recalls p := by
  induction packets generalizing s with
  | nil => cases hp
  | cons q rest ih =>
      obtain ⟨hfirst, hrest⟩ := List.pairwise_cons.mp hapart
      have hroom (r t : Packet) : (s.insert q).2.Apart r t ↔ s.Apart r t := by
        rw [Apart, room_insert, room_insert]
        rfl
      rcases List.mem_cons.mp hp with rfl | hlater
      · refine recalls_insertAll_of_apart (recalls_insert_self h (hplace p (by simp))) ?_
        intro r hr
        exact (hroom r p).mpr (hfirst r hr)
      · refine ih (h.insert q) (fun r hr => ?_) ?_ hlater
        · rw [places_insert]
          exact hplace r (List.mem_cons_of_mem q hr)
        · exact hrest.imp fun {r t} hrt => (hroom t r).mpr hrt

end Store

end Framecast
