/-
The stores of a node that is set up as configured.

A configuration that was resolved names no channel twice among its stores.  So
registering them on a connection that keeps nothing yet fails only over a table that is
too large, for their sizes are not checked, and otherwise every channel has afterwards the
store the configuration gives it, or none.
-/
import Framecast.Configuration.Input
import Framecast.Node.Stream
import Framecast.Proofs.Action

namespace Framecast

namespace Stores

theorem get?_set_self (s : Stores) (channel : Channel) (store : Store) :
    (s.set channel store).get? channel = some store := by
  cases channel <;> rfl

theorem get?_set_of_ne (s : Stores) {channel other : Channel} (store : Store)
    (h : other ≠ channel) : (s.set channel store).get? other = s.get? other := by
  cases channel <;> cases other <;> first | rfl | exact absurd rfl h

/-- A channel without a store is given one, unless the table is too large. -/
theorem register_of_none {s : Stores} {channel : Channel} (h : s.get? channel = none)
    (maxUnit units : Nat) :
    s.register channel maxUnit units =
      if Store.Fits maxUnit units then .ok (s.set channel (Store.empty maxUnit units))
      else .error .tableTooLarge := by
  unfold register Store.make?
  rw [h]
  by_cases hfits : Store.Fits maxUnit units
  · rw [if_pos hfits, if_pos hfits]
  · rw [if_neg hfits, if_neg hfits]

end Stores

namespace Configuration

/-! ### What a resolved configuration says -/

theorem bind_eq_ok {ε α β : Type} {x : Except ε α} {f : α → Except ε β} {b : β}
    (h : (x >>= f) = .ok b) : ∃ a, x = .ok a ∧ f a = .ok b := by
  cases x with
  | error e => cases h
  | ok a => exact ⟨a, rfl, h⟩

theorem mapError_eq_ok {ε δ α : Type} {r : Except ε α} {f : ε → δ} {a : α}
    (h : r.mapError f = .ok a) : r = .ok a := by
  cases r with
  | error e => cases h
  | ok b =>
      cases h
      rfl

/-- The stores of a resolved configuration were checked, and its reception is what the
section comes to. -/
theorem resolve_eq_ok {input : Input} {config : Configuration}
    (h : input.resolve = .ok config) :
    checkRetention input.retention = .ok config.retention ∧
      config.reception = input.reception.resolve := by
  unfold Input.resolve at h
  obtain ⟨version, -, h⟩ := bind_eq_ok h
  obtain ⟨key, -, h⟩ := bind_eq_ok h
  obtain ⟨socket, -, h⟩ := bind_eq_ok h
  obtain ⟨host, -, h⟩ := bind_eq_ok h
  obtain ⟨rendezvous, -, h⟩ := bind_eq_ok h
  obtain ⟨retention, hretention, h⟩ := bind_eq_ok h
  cases h
  exact ⟨mapError_eq_ok hretention, rfl⟩

theorem retention_of_resolve {input : Input} {config : Configuration} {list : List Retention}
    (h : input.resolve = .ok config) (hlist : checkRetention input.retention = .ok list) :
    config.retention = list := by
  have hretention := (resolve_eq_ok h).1
  rw [hlist, Except.ok.injEq] at hretention
  exact hretention.symm

/-- Stores that pass the check are for channels not seen before. -/
theorem not_mem_of_checkStores {seen : List Channel} {list : List Retention}
    (h : checkStores seen list = .ok ()) : ∀ r ∈ list, r.channel ∉ seen := by
  induction list generalizing seen with
  | nil =>
      intro r hr
      cases hr
  | cons r rest ih =>
      rw [checkStores] at h
      split at h
      · cases h
      · rename_i hnew
        split at h
        · cases h
        · split at h
          · cases h
          · intro q hq
            rcases List.mem_cons.mp hq with rfl | hrest
            · exact hnew
            · exact fun hc => ih h q hrest (List.mem_cons_of_mem _ hc)

theorem checkStores_tail {seen : List Channel} {r : Retention} {rest : List Retention}
    (h : checkStores seen (r :: rest) = .ok ()) :
    checkStores (r.channel :: seen) rest = .ok () := by
  rw [checkStores] at h
  split at h
  · cases h
  · split at h
    · cases h
    · split at h
      · cases h
      · exact h

theorem checkStores_of_resolve {input : Input} {config : Configuration}
    (h : input.resolve = .ok config) : checkStores [] config.retention = .ok () := by
  have hretention := (resolve_eq_ok h).1
  cases hlist : input.retention with
  | none =>
      rw [hlist, checkRetention, Except.ok.injEq] at hretention
      rw [← hretention]
      rfl
  | some list =>
      rw [hlist, checkRetention] at hretention
      cases hcheck : checkStores [] list with
      | error e =>
          rw [hcheck] at hretention
          cases hretention
      | ok u =>
          rw [hcheck] at hretention
          change Except.ok list = Except.ok config.retention at hretention
          rw [Except.ok.injEq] at hretention
          rw [← hretention]
          exact hcheck

end Configuration

/-- The stores of a link. -/
abbrev Link.stores (l : Link) : Stores := l.connection.stores

/-- No table of a store is too large to be laid out. -/
def Configuration.Storable (config : Configuration) : Prop :=
  ∀ r ∈ config.retention, Store.Fits r.maxUnit r.units

instance (config : Configuration) : Decidable config.Storable :=
  inferInstanceAs (Decidable (∀ r ∈ config.retention, Store.Fits r.maxUnit r.units))

namespace Node

open Framecast.Configuration

variable {l sender : Link}

theorem register_of_none {channel : Channel} (h : l.stores.get? channel = none)
    (maxUnit units : Nat) :
    Link.register channel maxUnit units l =
      if Store.Fits maxUnit units then
        (.ok (), l.update fun c =>
          { c with stores := c.stores.set channel (Store.empty maxUnit units) })
      else (.error .tableTooLarge, l) := by
  unfold Link.register
  rw [Stores.register_of_none h]
  by_cases hfits : Store.Fits maxUnit units
  · rw [if_pos hfits, if_pos hfits]
    rfl
  · rw [if_neg hfits, if_neg hfits]

/-- **Stores that pass the check can be registered as far as their tables can be laid out,** and
nothing else is.  By induction over the list: what was registered first is in the way of no other,
for the check has seen its channel. -/
theorem registerAll_cases {seen : List Channel} {list : List Retention}
    (h : checkStores seen list = .ok ()) (hfree : ∀ r ∈ list, l.stores.get? r.channel = none) :
    ((∀ r ∈ list, Store.Fits r.maxUnit r.units) ∧
        ∃ sender, registerAll list l = (.ok (), sender) ∧
          (∀ r ∈ list, sender.stores.get? r.channel = some (Store.empty r.maxUnit r.units)) ∧
          ∀ c, (∀ r ∈ list, r.channel ≠ c) → sender.stores.get? c = l.stores.get? c) ∨
      (¬ ∀ r ∈ list, Store.Fits r.maxUnit r.units) ∧
        ∃ sender, registerAll list l = (.error .tableTooLarge, sender) := by
  induction list generalizing seen l with
  | nil => exact Or.inl ⟨nofun, l, rfl, nofun, fun c _ => rfl⟩
  | cons r rest ih =>
      have htail := checkStores_tail h
      have hregister := register_of_none (hfree r (List.mem_cons_self ..)) r.maxUnit r.units
      have hne : ∀ q ∈ rest, q.channel ≠ r.channel := fun q hq hc =>
        not_mem_of_checkStores htail q hq (by rw [hc]; exact List.mem_cons_self ..)
      rw [List.forall_mem_cons, registerAll]
      by_cases hfits : Store.Fits r.maxUnit r.units
      · rw [if_pos hfits] at hregister
        rw [Action.bind_of_ok hregister]
        have hlater : ∀ q ∈ rest,
            (l.stores.set r.channel (Store.empty r.maxUnit r.units)).get? q.channel = none := by
          intro q hq
          rw [Stores.get?_set_of_ne _ _ (hne q hq)]
          exact hfree q (List.mem_cons_of_mem _ hq)
        rcases ih htail (l := l.update fun c =>
            { c with stores := c.stores.set r.channel (Store.empty r.maxUnit r.units) }) hlater with
          ⟨hrest, sender, hrun, hall, hother⟩ | ⟨hrest, sender, hrun⟩
        · refine Or.inl ⟨⟨hfits, hrest⟩, sender, hrun, fun q hq => ?_, fun c hc => ?_⟩
          · rcases List.mem_cons.mp hq with rfl | hq
            · rw [hother q.channel hne]
              exact Stores.get?_set_self _ _ _
            · exact hall q hq
          · rw [hother c fun q hq => hc q (List.mem_cons_of_mem _ hq)]
            exact Stores.get?_set_of_ne _ _ fun heq => hc r (List.mem_cons_self ..) heq.symm
        · exact Or.inr ⟨fun hall => hrest hall.2, sender, hrun⟩
      · rw [if_neg hfits] at hregister
        exact Or.inr ⟨fun hall => hfits hall.1, l, Action.bind_of_error hregister⟩

section Resolved

variable {input : Input} {config : Configuration}

/-- A node of a resolved configuration registers its stores, or a table of one is too large. -/
theorem registerAll_of_resolve (h : input.resolve = .ok config) (hl : l.stores = {}) :
    (config.Storable ∧ ∃ sender, registerAll config.retention l = (.ok (), sender) ∧
        (∀ r ∈ config.retention,
          sender.stores.get? r.channel = some (Store.empty r.maxUnit r.units)) ∧
        ∀ c, (∀ r ∈ config.retention, r.channel ≠ c) → sender.stores.get? c = none) ∨
      ¬ config.Storable ∧
        ∃ sender, registerAll config.retention l = (.error .tableTooLarge, sender) := by
  have hnone (c : Channel) : l.stores.get? c = none := by
    rw [hl]
    cases c <;> rfl
  rcases registerAll_cases (checkStores_of_resolve h) fun r _ => hnone r.channel with
    ⟨hfits, sender, hrun, hall, hother⟩ | hlarge
  · exact Or.inl ⟨hfits, sender, hrun, hall, fun c hc => (hother c hc).trans (hnone c)⟩
  · exact Or.inr hlarge

/-- How registering ends depends on the sizes of the tables alone. -/
theorem fst_registerAll (h : input.resolve = .ok config) (hl : l.stores = {}) :
    (registerAll config.retention l).1 =
      if config.Storable then .ok () else .error .tableTooLarge := by
  rcases registerAll_of_resolve h hl with ⟨hfits, sender, hrun, -⟩ | ⟨hlarge, sender, hrun⟩
  · rw [hrun, if_pos hfits]
  · rw [hrun, if_neg hlarge]

theorem registerAll_ok_iff (h : input.resolve = .ok config) (hl : l.stores = {}) :
    (∃ sender, registerAll config.retention l = (.ok (), sender)) ↔ config.Storable := by
  rcases registerAll_of_resolve h hl with ⟨hfits, sender, hrun, -⟩ | ⟨hlarge, sender, hrun⟩
  · exact iff_of_true ⟨sender, hrun⟩ hfits
  · refine iff_of_false ?_ hlarge
    rintro ⟨sender', hok⟩
    cases hrun.symm.trans hok

/-- After registering, every channel has the store the configuration gives it, or none. -/
theorem stores_of_registerAll (h : input.resolve = .ok config) (hl : l.stores = {})
    (hrun : registerAll config.retention l = (.ok (), sender)) :
    (∀ r ∈ config.retention,
        sender.stores.get? r.channel = some (Store.empty r.maxUnit r.units)) ∧
      ∀ c, (∀ r ∈ config.retention, r.channel ≠ c) → sender.stores.get? c = none := by
  rcases registerAll_of_resolve h hl with ⟨-, sender', hok, hstores⟩ | ⟨-, sender', herror⟩
  · cases hok.symm.trans hrun
    exact hstores
  · cases herror.symm.trans hrun

end Resolved

end Node

end Framecast
