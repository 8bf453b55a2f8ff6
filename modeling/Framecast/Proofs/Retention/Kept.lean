/-
What the stores of a connection recall.

The stores recall a fragment if the store of its channel does.  Nothing that happens to
them makes a channel lose its store or changes its rooms: a fragment of another channel
goes to another store, a channel that has a store is given no other one, and looking
fragments up only marks them.  So a fragment that was kept is recalled until one of its
channel comes that has its index and a unit of its room.

`Change` lists what happens to stores while a connection is used.
-/
import Framecast.Proofs.Retention.Recall

namespace Framecast

namespace Store

/-! ### Rooms -/

/-- Units share a room exactly if their numbers are congruent. -/
theorem room_eq_iff {s : Store} (h : s.Sound) {x y : Int32} :
    s.room x = s.room y ↔ x.toInt % (s.units : Int) = y.toInt % (s.units : Int) := by
  have hpos := h.units_pos
  have hx := Int.emod_nonneg x.toInt (by omega : (s.units : Int) ≠ 0)
  have hy := Int.emod_nonneg y.toInt (by omega : (s.units : Int) ≠ 0)
  unfold room
  omega

theorem units_find? (s : Store) (id : Int32) (index : UInt16) :
    (s.find? id index).2.units = s.units := by
  rcases find?_snd s id index with hsame | ⟨i, q, -, hset⟩
  · rw [hsame]
  · rw [hset]

theorem places_find? (s : Store) (id : Int32) (index : UInt16) :
    (s.find? id index).2.places = s.places := by
  rcases find?_snd s id index with hsame | ⟨i, q, -, hset⟩
  · rw [hsame]
  · rw [hset]

end Store

namespace Stores

/-- Every store is in order and has a place for a first fragment. -/
def Sound (s : Stores) : Prop :=
  ∀ channel store, s.get? channel = some store → store.Sound ∧ 0 < store.places

/-- The store of its channel, which has this many rooms, recalls the fragment. -/
def Recalls (s : Stores) (units : Nat) (p : Packet) : Prop :=
  ∃ store, s.get? p.channel = some store ∧ store.Sound ∧ store.units = units ∧ store.Recalls p

variable {s t : Stores} {channel : Channel} {store : Store} {units : Nat} {p q : Packet}

/-! ### Changing the store of a channel -/

/-- Changes the store of a channel, if it has one. -/
def modify (s : Stores) (channel : Channel) (f : Store → Store) : Stores :=
  match s.get? channel with
  | none => s
  | some store => s.set channel (f store)

theorem insert_snd (s : Stores) (channel : Channel) (q : Packet) :
    (s.insert channel q).2 = s.modify channel fun store => (store.insert q).2 := by
  unfold insert modify
  cases s.get? channel <;> rfl

theorem find_snd (s : Stores) (channel : Channel) (id : Int32) (index : UInt16) :
    (s.find channel id index).2 = s.modify channel fun store => (store.find? id index).2 := by
  unfold find modify
  cases s.get? channel with
  | none => rfl
  | some store =>
      dsimp only
      split
      · rename_i hfind
        rw [hfind]
      · rename_i hfind
        rw [hfind]

theorem get?_modify_self (s : Stores) (channel : Channel) (f : Store → Store) :
    (s.modify channel f).get? channel = (s.get? channel).map f := by
  unfold modify
  cases hget : s.get? channel with
  | none => exact hget
  | some store => exact get?_set_self ..

theorem get?_modify_of_ne {other : Channel} (hne : other ≠ channel) (f : Store → Store) :
    (s.modify channel f).get? other = s.get? other := by
  unfold modify
  cases s.get? channel with
  | none => rfl
  | some store => exact get?_set_of_ne s _ hne

theorem register_eq_ok {maxUnit units : Nat} (h : s.register channel maxUnit units = .ok t) :
    s.get? channel = none ∧ t = s.set channel (Store.empty maxUnit units) := by
  unfold register Store.make? at h
  split at h
  · cases h
  · rename_i hnone
    by_cases hfits : Store.Fits maxUnit units
    · rw [if_pos hfits] at h
      cases h
      exact ⟨hnone, rfl⟩
    · rw [if_neg hfits] at h
      cases h

/-- Registering a channel leaves the stores that there are. -/
theorem get?_register {maxUnit units : Nat} (h : s.register channel maxUnit units = .ok t)
    {other : Channel} (hother : s.get? other = some store) : t.get? other = some store := by
  obtain ⟨hnone, rfl⟩ := register_eq_ok h
  have hne : other ≠ channel := by
    intro hsame
    rw [hsame, hnone] at hother
    cases hother
  rw [get?_set_of_ne s _ hne]
  exact hother

/-! ### Keeping many fragments -/

/-- Keeps fragments one after another, each in the store of its channel. -/
def insertAll (s : Stores) (packets : List Packet) : Stores :=
  packets.foldl (fun s p => (s.insert p.channel p).2) s

/-- The fragments of one channel all go to its store. -/
theorem get?_insertAll {packets : List Packet} (h : s.get? channel = some store)
    (hchannel : ∀ q ∈ packets, q.channel = channel) :
    (s.insertAll packets).get? channel = some (store.insertAll packets) := by
  induction packets generalizing s store with
  | nil => exact h
  | cons q rest ih =>
      have hfirst : (s.insert q.channel q).2.get? channel = some (store.insert q).2 := by
        rw [hchannel q (List.mem_cons_self ..), insert_snd, get?_modify_self, h, Option.map_some]
      exact ih hfirst fun r hr => hchannel r (List.mem_cons_of_mem q hr)

/-! ### What happens to stores -/

/-- What one use of a connection does to its stores: fragments are kept, one is looked up,
or a channel is given a store. -/
inductive Change (s : Stores) : List Packet → Stores → Prop
  | keep (packets : List Packet) : Change s packets (s.insertAll packets)
  | find (channel : Channel) (id : Int32) (index : UInt16) :
      Change s [] (s.find channel id index).2
  | register {channel : Channel} {maxUnit units : Nat} {t : Stores}
      (h : s.register channel maxUnit units = .ok t) : Change s [] t

theorem Change.same (s : Stores) : Change s [] s :=
  .keep []

theorem Sound.modify (h : s.Sound) (channel : Channel) {f : Store → Store}
    (hf : ∀ store : Store, store.Sound → (f store).Sound ∧ (f store).places = store.places) :
    (s.modify channel f).Sound := by
  intro other store hother
  by_cases hsame : other = channel
  · rw [hsame, get?_modify_self, Option.map_eq_some_iff] at hother
    obtain ⟨old, hget, rfl⟩ := hother
    obtain ⟨hold, hplaces⟩ := h channel old hget
    rw [(hf old hold).2]
    exact ⟨(hf old hold).1, hplaces⟩
  · rw [get?_modify_of_ne hsame] at hother
    exact h other store hother

theorem Sound.insertAll (h : s.Sound) (packets : List Packet) : (s.insertAll packets).Sound := by
  induction packets generalizing s with
  | nil => exact h
  | cons q rest ih =>
      refine ih ?_
      show (s.insert q.channel q).2.Sound
      rw [insert_snd]
      exact h.modify q.channel fun store hstore => ⟨hstore.insert q, Store.places_insert store q⟩

theorem Sound.find (h : s.Sound) (channel : Channel) (id : Int32) (index : UInt16) :
    (s.find channel id index).2.Sound := by
  rw [find_snd]
  exact h.modify channel fun store hstore =>
    ⟨hstore.find? id index, Store.places_find? store id index⟩

theorem Sound.register {maxUnit units : Nat} (h : s.Sound)
    (hregister : s.register channel maxUnit units = .ok t) : t.Sound := by
  obtain ⟨-, rfl⟩ := register_eq_ok hregister
  intro other store hother
  by_cases hsame : other = channel
  · rw [hsame, get?_set_self, Option.some.injEq] at hother
    rw [← hother]
    exact ⟨Store.sound_empty maxUnit units, Nat.succ_pos _⟩
  · rw [get?_set_of_ne s _ hsame] at hother
    exact h other store hother

/-- **Stores stay in order.** -/
theorem Sound.change {packets : List Packet} (h : s.Sound) (hchange : s.Change packets t) :
    t.Sound := by
  cases hchange with
  | keep => exact h.insertAll packets
  | find channel id index => exact h.find channel id index
  | register hregister => exact h.register hregister

/-! ### Recalling -/

/-- The fragments of one channel are recalled once they were kept, if there are places for
their indices and these differ. -/
theorem recalls_insertAll {packets : List Packet} (h : s.get? channel = some store)
    (hsound : store.Sound) (hchannel : ∀ q ∈ packets, q.channel = channel)
    (hplace : ∀ q ∈ packets, q.index.toNat < store.places)
    (hindex : packets.Pairwise fun q r => q.index ≠ r.index) (hp : p ∈ packets) :
    (s.insertAll packets).Recalls store.units p := by
  have hunits (list : List Packet) (s : Store) : (s.insertAll list).units = s.units := by
    induction list generalizing s with
    | nil => rfl
    | cons q rest ih => exact (ih (s.insert q).2).trans (Store.units_insert s q)
  refine ⟨store.insertAll packets, ?_, hsound.insertAll packets, hunits packets store, ?_⟩
  · rw [hchannel p hp]
    exact get?_insertAll h hchannel
  · exact Store.recalls_insertAll hsound hplace
      (hindex.imp fun hne => Or.inr fun heq => hne heq.symm) hp

/-- Changing a store keeps a fragment recalled if the store of its channel still recalls
it. -/
theorem Recalls.modify (h : s.Recalls units p) (channel : Channel) {f : Store → Store}
    (hf : ∀ store : Store, store.Sound → (f store).Sound ∧ (f store).units = store.units)
    (hrecalls : ∀ store : Store, p.channel = channel → store.Sound → store.units = units →
      store.Recalls p → (f store).Recalls p) : (s.modify channel f).Recalls units p := by
  obtain ⟨store, hget, hsound, hunits, hstore⟩ := h
  by_cases hsame : p.channel = channel
  · refine ⟨f store, ?_, (hf store hsound).1, (hf store hsound).2.trans hunits,
      hrecalls store hsame hsound hunits hstore⟩
    rw [← hsame, get?_modify_self, hget, Option.map_some]
  · exact ⟨store, (get?_modify_of_ne hsame f).trans hget, hsound, hunits, hstore⟩

theorem recalls_insert (h : s.Recalls units p)
    (hother : q.channel = p.channel →
      q.id.toInt % (units : Int) ≠ p.id.toInt % (units : Int)) :
    (s.insert q.channel q).2.Recalls units p := by
  rw [insert_snd]
  refine h.modify q.channel
    (fun store hstore => ⟨hstore.insert q, Store.units_insert store q⟩) ?_
  intro store hsame hstore hunits hrecalls
  refine Store.recalls_insert_of_ne hrecalls (Or.inl ?_)
  rw [Ne, Store.room_eq_iff hstore, hunits]
  exact hother hsame.symm

/-- **What is recalled stays recalled,** as long as no unit of its room is kept on its
channel. -/
theorem Recalls.change {packets : List Packet} (h : s.Recalls units p)
    (hchange : s.Change packets t)
    (hothers : ∀ q ∈ packets, q.channel = p.channel →
      q.id.toInt % (units : Int) ≠ p.id.toInt % (units : Int)) : t.Recalls units p := by
  cases hchange with
  | keep =>
      induction packets generalizing s with
      | nil => exact h
      | cons q rest ih =>
          exact ih (recalls_insert h (hothers q (List.mem_cons_self ..)))
            fun r hr => hothers r (List.mem_cons_of_mem q hr)
  | find channel id index =>
      rw [find_snd]
      refine h.modify channel
        (fun store hstore => ⟨hstore.find? id index, Store.units_find? store id index⟩) ?_
      intro store _ _ _ hrecalls
      exact Store.recalls_find? hrecalls id index
  | register hregister =>
      obtain ⟨store, hget, hsound, hunits, hrecalls⟩ := h
      exact ⟨store, get?_register hregister hget, hsound, hunits, hrecalls⟩

/-- **A fragment that is recalled is found,** marked as sent again. -/
theorem find_of_recalls (h : s.Recalls units p) :
    (s.find p.channel p.id p.index).1 = .ok { p with resent := true } := by
  obtain ⟨store, hget, -, -, hrecalls⟩ := h
  have hfound := Store.find?_of_recalls hrecalls
  unfold find
  rw [hget]
  dsimp only
  split
  · rename_i hfind
    rw [hfind] at hfound
    cases hfound
  · rename_i hfind
    rw [hfind, Option.some.injEq] at hfound
    rw [hfound]

end Stores

end Framecast
