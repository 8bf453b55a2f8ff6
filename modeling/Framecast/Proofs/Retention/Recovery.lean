/-
A ring recovers from a store what it lost.

The sender of a batch keeps all of its fragments; the ring hears some of them.  In each
round the ring asks for what is missing, every request is looked up in the store and
what is found is taken in.  `recover` is one such round.

What is asked for is a fragment the ring lacks, so it is one of the batch; the store
recalls all of these, and the ring keeps it.  Thus a round that asks for anything leaves
fewer fragments lacking, and there are not more such rounds than there were fragments
lacking at the start.  From then on the ring is settled and stays so.
-/
import Mathlib.Data.Finset.Card
import Framecast.Proofs.Assembly.Recovering
import Framecast.Proofs.Retention.Recall

namespace Framecast

namespace Assembly

namespace Batch

variable {limits : Limits} {store : Store}

/-- The units of a batch. -/
def ids (b : Batch limits store) : List Int32 :=
  (List.range (b.last.toInt - b.first.toInt + 1).toNat).map fun n : Nat =>
    Int32.ofInt (b.first.toInt + n)

/-- A fragment of a unit. -/
def fragment (b : Batch limits store) (channel : Channel) (id : Int32) (i : Nat) : Packet :=
  fragmentAt channel id (b.payload id) (b.limit id) i

/-- All fragments of a batch. -/
def packets (b : Batch limits store) (channel : Channel) : List Packet :=
  b.ids.flatMap fun id => fragments channel id (b.payload id) (b.limit id)

/-- The fragments of a batch that were not received. -/
def missing (b : Batch limits store) (channel : Channel) (received : List Packet) :
    Finset Packet :=
  (b.packets channel).toFinset.filter fun p => p ∉ received

variable {b : Batch limits store} {channel : Channel}

theorem toInt_ids {n : Nat} (h : (n : Int) ≤ b.last.toInt - b.first.toInt) :
    (Int32.ofInt (b.first.toInt + n)).toInt = b.first.toInt + n := by
  have hfirst := Int32.minValue_le_toInt b.first
  have hlast := b.last.toInt_lt
  have hleast : Int32.minValue.toInt = -2147483648 := by decide
  exact Int32.toInt_ofInt_of_le (by omega) (by omega)

theorem mem_ids {id : Int32} : id ∈ b.ids ↔ b.first ≤ id ∧ id ≤ b.last := by
  simp only [ids, List.mem_map, List.mem_range, Int32.le_iff_toInt_le]
  constructor
  · intro h
    obtain ⟨n, hn, rfl⟩ := h
    rw [toInt_ids (by omega)]
    omega
  · intro h
    refine ⟨(id.toInt - b.first.toInt).toNat, by omega, ?_⟩
    rw [← Int32.toInt_inj, toInt_ids (by omega)]
    omega

theorem mem_packets {p : Packet} :
    p ∈ b.packets channel ↔ ∃ id i, b.first ≤ id ∧ id ≤ b.last ∧ i < b.count id ∧
      p = b.fragment channel id i := by
  simp only [packets, List.mem_flatMap, mem_ids, mem_fragments]
  constructor
  · intro h
    obtain ⟨id, hid, i, hi, hp⟩ := h
    exact ⟨id, i, hid.1, hid.2, hi, hp⟩
  · intro h
    obtain ⟨id, i, hfirst, hlast, hi, hp⟩ := h
    exact ⟨id, ⟨hfirst, hlast⟩, i, hi, hp⟩

theorem toNat_index_fragment {id : Int32} {i : Nat} (hi : i < b.count id) :
    (b.fragment channel id i).index.toNat = i := by
  have hcount := b.count_le id
  refine toNat_index_fragmentAt channel id _ _ i ?_
  change i < fragmentCount (b.payload id).length (b.limit id) at hi
  omega

/-- A fragment of a batch may be heard. -/
theorem feeds_of_mem_packets {top : Int32} {p : Packet} (hp : p ∈ b.packets channel)
    (htop : p.id ≤ top) : b.Feeds channel top (.receive p) := by
  obtain ⟨id, i, hfirst, -, hi, rfl⟩ := mem_packets.mp hp
  exact ⟨hfirst, htop, id, mem_fragments.mpr ⟨i, hi, rfl⟩⟩

/-- The fragments of a batch are kept at positions of their own. -/
theorem apart_packets (hstore : store.Sound) :
    (b.packets channel).Pairwise fun p q => store.Apart q p := by
  refine List.pairwise_flatMap.mpr ⟨?_, ?_⟩
  · intro id hid
    have hcount := b.count_le id
    exact (pairwise_index_fragments (by omega)).imp fun hne => Or.inr hne.symm
  · rw [ids, List.pairwise_map]
    refine List.pairwise_lt_range.imp_of_mem fun {m n} hm hn hlt => ?_
    rw [List.mem_range] at hm hn
    intro p hp q hq
    obtain ⟨i, -, rfl⟩ := mem_fragments.mp hp
    obtain ⟨j, -, rfl⟩ := mem_fragments.mp hq
    refine Or.inl fun hroom => ?_
    have hm' := toInt_ids (b := b) (n := m) (by omega)
    have hn' := toInt_ids (b := b) (n := n) (by omega)
    have hfar := Store.add_units_le_of_room_eq hstore hroom.symm
      (Int32.lt_iff_toInt_lt.mpr (by
        show (Int32.ofInt _).toInt < (Int32.ofInt _).toInt
        omega))
    change (Int32.ofInt _).toInt + _ ≤ (Int32.ofInt _).toInt at hfar
    have hfew := b.few
    omega

/-- **A store of the batch's size recalls all of it.** -/
theorem recalls_packets (hstore : store.Sound) {p : Packet} (hp : p ∈ b.packets channel) :
    (store.insertAll (b.packets channel)).Recalls p := by
  refine Store.recalls_insertAll hstore (fun q hq => ?_) (apart_packets hstore) hp
  obtain ⟨id, i, hfirst, hlast, hi, rfl⟩ := mem_packets.mp hq
  rw [toNat_index_fragment hi]
  exact Nat.lt_of_lt_of_le hi (b.places id hfirst hlast)

end Batch

/-! ### Rounds -/

/-- Looks up what is asked for and takes in what is found.  Says what became of each;
`none` is what was not found. -/
def answer : List Wanted → Store → Assembly → List (Option Verdict) × Store × Assembly
  | [], s, a => ([], s, a)
  | w :: rest, s, a =>
    match s.find? w.1 w.2 with
    | (none, s) =>
      let (outcomes, s, a) := answer rest s a
      (none :: outcomes, s, a)
    | (some p, s) =>
      let (v, a) := a.receive p
      let (outcomes, s, a) := answer rest s a
      (some v :: outcomes, s, a)

/-- One round of requests and answers. -/
def recover (now : Int) (s : Store) (a : Assembly) : List (Option Verdict) × Store × Assembly :=
  answer (a.request now).1 s (a.request now).2

/-- A round at each of the times. -/
def recoverAll (times : List Int) (s : Store) (a : Assembly) : Store × Assembly :=
  times.foldl (fun r now => (recover now r.1 r.2).2) (s, a)

section Rounds

variable {channel : Channel} {limits : Limits} {store : Store} {b : Batch limits store}
  {top : Int32} {calls : List Call} {s : Store}

/-- What a ring has come to after answers. -/
structure Answered (b : Batch limits store) (channel : Channel) (top : Int32)
    (owed : List (Int32 × Nat)) (calls later : List Call)
    (r : List (Option Verdict) × Store × Assembly) : Prop where
  run : r.2.2 = (empty channel limits).run later
  recovering : Recovering b channel top [] later
  recalls : ∀ p ∈ b.packets channel, r.2.1.Recalls p
  kept : ∀ o ∈ r.1, o = some .stored ∨ o = some .completed
  accepted_iff : ∀ id i, i ∈ accepted ((empty channel limits).trace later) id ↔
    i ∈ accepted ((empty channel limits).trace calls) id ∨ (id, i) ∈ owed

/-- **Everything that is owed is found and kept.** -/
theorem answered_of_owed {owed : List (Int32 × Nat)} (h : Recovering b channel top owed calls)
    (htop : top ≤ b.last) (hrecalls : ∀ p ∈ b.packets channel, s.Recalls p) :
    ∃ later, Answered b channel top owed calls later
      (answer (owed.map wanted) s ((empty channel limits).run calls)) := by
  induction owed generalizing calls s with
  | nil =>
      refine ⟨calls, rfl, h, hrecalls, ?_, ?_⟩
      · intro o ho
        cases ho
      · simp
  | cons w rest ih =>
      obtain ⟨hfirst, hle, hlt, hnew⟩ := h.lacks w (List.mem_cons_self ..)
      have hmem : b.fragment channel w.1 w.2 ∈ b.packets channel :=
        Batch.mem_packets.mpr ⟨w.1, w.2, hfirst, Int32.le_trans hle htop, hlt, rfl⟩
      have hindex : (b.fragment channel w.1 w.2).index.toNat = w.2 :=
        Batch.toNat_index_fragment hlt
      obtain ⟨p, hp⟩ : ∃ p, p = { b.fragment channel w.1 w.2 with resent := true } := ⟨_, rfl⟩
      have hid : p.id = w.1 := by rw [hp]; rfl
      have hplace : p.index.toNat = w.2 := by rw [hp]; exact hindex
      have hfind : (s.find? w.1 (UInt16.ofNat w.2)).1 = some p := by
        rw [hp]
        exact Store.find?_of_recalls (hrecalls _ hmem)
      have hfeeds : b.Feeds channel top (.receive p) := by
        refine ⟨by rw [hid]; exact hfirst, by rw [hid]; exact hle, w.1, ?_⟩
        rw [hp]
        exact mem_fragments.mpr ⟨w.2, hlt, rfl⟩
      have hsound := (sound_empty channel limits).run calls
      obtain ⟨t, ht⟩ := exists_takesIn h.feeds htop hfeeds (by rw [hid, hplace]; exact hnew)
      have hnext := h.kept hfeeds ht
      rw [hid, hplace, List.erase_cons_head] at hnext
      obtain ⟨later, hlater⟩ := ih hnext fun q hq =>
        Store.recalls_find? (hrecalls q hq) w.1 (UInt16.ofNat w.2)
      have hanswer : answer ((w :: rest).map wanted) s ((empty channel limits).run calls) =
          (some (((empty channel limits).run calls).receive p).1 ::
              (answer (rest.map wanted) (s.find? w.1 (UInt16.ofNat w.2)).2
                ((empty channel limits).run (calls ++ [.receive p]))).1,
            (answer (rest.map wanted) (s.find? w.1 (UInt16.ofNat w.2)).2
              ((empty channel limits).run (calls ++ [.receive p]))).2) := by
        have hpair : s.find? w.1 (UInt16.ofNat w.2) =
            (some p, (s.find? w.1 (UInt16.ofNat w.2)).2) := Prod.ext hfind rfl
        rw [run_concat, List.map_cons, answer]
        simp only [wanted]
        rw [hpair]
        rfl
      rw [hanswer]
      refine ⟨later, hlater.run, hlater.recovering, hlater.recalls, ?_, ?_⟩
      · intro o ho
        rcases List.mem_cons.mp ho with rfl | hlast
        · rw [receive_of_takesIn hsound ht]
          show some (keptVerdict p t) = _ ∨ _
          unfold keptVerdict
          split
          · exact Or.inr rfl
          · exact Or.inl rfl
        · exact hlater.kept o hlast
      · intro id i
        rw [hlater.accepted_iff, trace_concat, mem_accepted_of_takesIn hsound ht, hid, hplace,
          List.mem_cons, or_assoc]

/-- The fragments of a batch that were not accepted. -/
def lacking (b : Batch limits store) (channel : Channel) (steps : List Step) : Finset Packet :=
  (b.packets channel).toFinset.filter fun p => p.index.toNat ∉ accepted steps p.id

/-- What a round took in is lacking no longer. -/
theorem card_lacking_lt {owed : List (Int32 × Nat)} {steps later : List Step}
    (haccepted : ∀ id i, i ∈ accepted later id ↔ i ∈ accepted steps id ∨ (id, i) ∈ owed)
    {p : Packet} (hp : p ∈ lacking b channel steps) (howed : (p.id, p.index.toNat) ∈ owed) :
    (lacking b channel later).card < (lacking b channel steps).card := by
  refine Finset.card_lt_card ⟨?_, ?_⟩
  · intro q hq
    rw [lacking, Finset.mem_filter, haccepted, not_or] at hq
    exact Finset.mem_filter.mpr ⟨hq.1, hq.2.1⟩
  · intro hall
    have hnot := (Finset.mem_filter.mp (hall hp)).2
    exact hnot ((haccepted _ _).mpr (Or.inr howed))

/-- What a round asks for is lacking. -/
theorem Recovering.fragment_mem_lacking (h : Recovering b channel top [] calls)
    (htop : top ≤ b.last) {now : Int} {newest : Int32}
    (hnewest : ((empty channel limits).run calls).newest = some newest) {w : Int32 × Nat}
    (hw : w ∈ ((empty channel limits).run calls).asksFor now newest) :
    b.fragment channel w.1 w.2 ∈ lacking b channel ((empty channel limits).trace calls) := by
  obtain ⟨hfirst, hle, hlt, hnew⟩ := (h.requested htop hnewest now).lacks w hw
  rw [trace_concat, (idle_request _ now).accepted_concat] at hnew
  refine Finset.mem_filter.mpr ⟨List.mem_toFinset.mpr ?_, ?_⟩
  · exact Batch.mem_packets.mpr ⟨w.1, w.2, hfirst, Int32.le_trans hle htop, hlt, rfl⟩
  · rw [Batch.toNat_index_fragment hlt]
    exact hnew

/-- Between rounds: nothing is owed, and either nothing is asked for any more or at most
`bound` fragments are lacking. -/
structure Stage (b : Batch limits store) (channel : Channel) (top : Int32) (bound : Nat)
    (s : Store) (calls : List Call) : Prop where
  recovering : Recovering b channel top [] calls
  recalls : ∀ p ∈ b.packets channel, s.Recalls p
  heard : ∃ id, accepted ((empty channel limits).trace calls) id ≠ ∅
  progress : Settled b.toSender ((empty channel limits).trace calls) ∨
    (lacking b channel ((empty channel limits).trace calls)).card ≤ bound

namespace Stage

variable {bound : Nat}

theorem exists_newest (h : Stage b channel top bound s calls) :
    ∃ n, ((empty channel limits).run calls).newest = some n := by
  obtain ⟨id, hid⟩ := h.heard
  obtain ⟨n, hn, -⟩ := (extent_run channel limits calls).le_newest id hid
  exact ⟨n, hn⟩

/-- A round asks for nothing exactly if the ring is settled. -/
theorem request_nil_iff (h : Stage b channel top bound s calls) (htop : top ≤ b.last)
    (hmax : 1 ≤ limits.maxRequests) (hround : 1 ≤ limits.maxPerRound) (now : Int) :
    (((empty channel limits).run calls).request now).1 = [] ↔
      Settled b.toSender ((empty channel limits).trace calls) := by
  obtain ⟨newest, hnewest⟩ := h.exists_newest
  rw [request_fst ((sound_empty channel limits).run calls).toPlaced hnewest, List.map_eq_nil_iff]
  constructor
  · intro hasks
    exact h.recovering.settled_of_asksFor_nil htop hmax hround hnewest hasks
  · intro hsettled
    exact h.recovering.asksFor_nil_of_settled htop hnewest hsettled

/-- If nothing is lacking, the ring is settled. -/
theorem settled_of_zero (h : Stage b channel top 0 s calls) (htop : top ≤ b.last)
    (hmax : 1 ≤ limits.maxRequests) (hround : 1 ≤ limits.maxPerRound) :
    Settled b.toSender ((empty channel limits).trace calls) := by
  refine h.progress.elim (fun hsettled => hsettled) fun hzero => ?_
  obtain ⟨newest, hnewest⟩ := h.exists_newest
  have hnone : ((empty channel limits).run calls).asksFor 0 newest = [] := by
    refine List.eq_nil_iff_forall_not_mem.mpr fun w hw => ?_
    have hmem := h.recovering.fragment_mem_lacking htop hnewest hw
    rw [Finset.card_eq_zero.mp (Nat.le_zero.mp hzero)] at hmem
    exact Finset.notMem_empty _ hmem
  exact h.recovering.settled_of_asksFor_nil htop hmax hround hnewest hnone

/-- **A round leaves less lacking,** or it asks for nothing. -/
theorem round (h : Stage b channel top bound s calls) (htop : top ≤ b.last)
    (hmax : 1 ≤ limits.maxRequests) (hround : 1 ≤ limits.maxPerRound) (now : Int) :
    ∃ later owed, Answered b channel top owed calls later
        (recover now s ((empty channel limits).run calls)) ∧
      Stage b channel top (bound - 1) (recover now s ((empty channel limits).run calls)).2.1
        later := by
  obtain ⟨newest, hnewest⟩ := h.exists_newest
  have hsound := (sound_empty channel limits).run calls
  have hrecover : recover now s ((empty channel limits).run calls) =
      answer ((((empty channel limits).run calls).asksFor now newest).map wanted) s
        ((empty channel limits).run (calls ++ [.request now])) := by
    rw [recover, request_fst hsound.toPlaced hnewest, run_concat]
    rfl
  obtain ⟨later, hlater⟩ :=
    answered_of_owed (h.recovering.requested htop hnewest now) htop h.recalls
  rw [← hrecover] at hlater
  have haccepted := hlater.accepted_iff
  simp only [trace_concat, (idle_request _ now).accepted_concat] at haccepted
  refine ⟨later, _, ⟨hlater.run, hlater.recovering, hlater.recalls, hlater.kept, haccepted⟩,
    hlater.recovering, hlater.recalls, ?_, ?_⟩
  · obtain ⟨id, hid⟩ := h.heard
    obtain ⟨i, hi⟩ := Finset.nonempty_iff_ne_empty.mpr hid
    exact ⟨id, Finset.ne_empty_of_mem ((haccepted id i).mpr (Or.inl hi))⟩
  · cases hasks : ((empty channel limits).run calls).asksFor now newest with
    | nil =>
        have hsettled := h.recovering.settled_of_asksFor_nil htop hmax hround hnewest hasks
        refine Or.inl (hsettled.congr fun id => ?_)
        ext i
        rw [haccepted, hasks]
        simp
    | cons w rest =>
        have hw : w ∈ ((empty channel limits).run calls).asksFor now newest := by simp [hasks]
        have hlt := card_lacking_lt haccepted
          (h.recovering.fragment_mem_lacking htop hnewest hw) (by
            rw [Batch.toNat_index_fragment
              ((h.recovering.requested htop hnewest now).lacks w hw).2.2.1]
            exact hw)
        rcases h.progress with hsettled | hbound
        · rw [h.recovering.asksFor_nil_of_settled htop hnewest hsettled] at hasks
          cases hasks
        · right
          omega

/-- What was accepted stays accepted over any number of rounds, and each of them leaves
less lacking. -/
theorem rounds (h : Stage b channel top bound s calls) (htop : top ≤ b.last)
    (hmax : 1 ≤ limits.maxRequests) (hround : 1 ≤ limits.maxPerRound) (times : List Int) :
    ∃ later, (recoverAll times s ((empty channel limits).run calls)).2 =
        (empty channel limits).run later ∧
      Stage b channel top (bound - times.length)
        (recoverAll times s ((empty channel limits).run calls)).1 later ∧
      ∀ id, accepted ((empty channel limits).trace calls) id ⊆
        accepted ((empty channel limits).trace later) id := by
  induction times generalizing bound s calls with
  | nil => exact ⟨calls, rfl, h, fun _ => Finset.Subset.refl _⟩
  | cons now rest ih =>
      obtain ⟨middle, owed, hanswered, hstage⟩ := h.round htop hmax hround now
      obtain ⟨later, hrun, hlast, hgrows⟩ := ih hstage
      have hall : recoverAll (now :: rest) s ((empty channel limits).run calls) =
          recoverAll rest (recover now s ((empty channel limits).run calls)).2.1
            ((empty channel limits).run middle) := by
        rw [← hanswered.run]
        rfl
      rw [hall]
      refine ⟨later, hrun, ?_, fun id i hi => ?_⟩
      · rw [List.length_cons, Nat.add_comm, ← Nat.sub_sub]
        exact hlast
      · exact hgrows id ((hanswered.accepted_iff id i).mpr (Or.inl hi))

end Stage

/-! ### The fragments that came through -/

/-- What was received of a batch was accepted, repeated or not. -/
theorem recovering_of_received (htop : top ≤ b.last) {received : List Packet}
    (hreceived : ∀ p ∈ received, p ∈ b.packets channel ∧ p.id ≤ top) :
    Recovering b channel top [] (received.map .receive) ∧
      ∀ p ∈ received,
        p.index.toNat ∈ accepted ((empty channel limits).trace (received.map .receive)) p.id := by
  induction received using List.reverseRecOn with
  | nil =>
      refine ⟨Recovering.start b channel top, ?_⟩
      intro p hp
      cases hp
  | append_singleton received p ih =>
      obtain ⟨hprev, haccepted⟩ := ih fun q hq => hreceived q (List.mem_append_left _ hq)
      obtain ⟨hmem, hle⟩ := hreceived p (by simp)
      have hfeeds := Batch.feeds_of_mem_packets hmem hle
      have hsound := (sound_empty channel limits).run (received.map .receive)
      rw [List.map_append, List.map_singleton]
      rcases receive_cases hsound p with hrefused | ⟨t, ht⟩
      · have hidle := idle_refused hrefused.verdict
        refine ⟨hprev.refused hfeeds hrefused, fun q hq => ?_⟩
        rw [trace_concat, hidle.accepted_concat]
        rcases List.mem_append.mp hq with hold | hlast
        · exact haccepted q hold
        · -- A fragment that is refused came before.
          rw [List.mem_singleton.mp hlast]
          by_contra hnew
          obtain ⟨t, ht⟩ := exists_takesIn hprev.feeds htop hfeeds hnew
          have hstep := accepted_of_takesIn hsound ht
            ((empty channel limits).trace (received.map .receive))
          rw [hidle.accepted_concat] at hstep
          rw [hstep] at hnew
          exact hnew (Finset.mem_insert_self _ _)
      · refine ⟨hprev.kept hfeeds ht, fun q hq => ?_⟩
        rw [trace_concat, mem_accepted_of_takesIn hsound ht]
        rcases List.mem_append.mp hq with hold | hlast
        · exact Or.inl (haccepted q hold)
        · rw [List.mem_singleton.mp hlast]
          exact Or.inr rfl

theorem stage_of_received (hstore : store.Sound) (htop : top ≤ b.last) {received : List Packet}
    (hreceived : ∀ p ∈ received, p ∈ b.packets channel ∧ p.id ≤ top) (hsome : received ≠ []) :
    Stage b channel top (b.missing channel received).card
      (store.insertAll (b.packets channel)) (received.map .receive) := by
  obtain ⟨hrecovering, haccepted⟩ := recovering_of_received htop hreceived
  refine ⟨hrecovering, fun p hp => Batch.recalls_packets hstore hp, ?_, Or.inr ?_⟩
  · obtain ⟨p, hp⟩ := List.exists_mem_of_ne_nil received hsome
    exact ⟨p.id, Finset.ne_empty_of_mem (haccepted p hp)⟩
  · refine Finset.card_le_card fun p hp => ?_
    rw [lacking, Finset.mem_filter] at hp
    exact Finset.mem_filter.mpr ⟨hp.1, fun hc => hp.2 (haccepted p hc)⟩

/-! ### What a settled ring has -/

/-- A unit between two of which something was accepted is whole. -/
theorem exists_complete (hcalls : ∀ c ∈ calls, b.Feeds channel top c) (htop : top ≤ b.last)
    (hsettled : Settled b.toSender ((empty channel limits).trace calls)) {x y id : Int32}
    (hx : accepted ((empty channel limits).trace calls) x ≠ ∅) (hxid : x ≤ id)
    (hy : accepted ((empty channel limits).trace calls) y ≠ ∅) (hidy : id < y) :
    ∃ t, ((empty channel limits).run calls).slotOf? id = some t ∧ t.isComplete = true ∧
      t.contents = b.payload id := by
  have hsound := (sound_empty channel limits).run calls
  have hall := hsettled.whole id ⟨x, hx, hxid⟩ ⟨y, hy, hidy⟩
  obtain ⟨t, ht, rfl⟩ : ∃ t ∈ (empty channel limits).run calls, t.id = id := by
    refine exists_slot_of_accepted hcalls htop ?_
    rw [hall]
    exact b.indices_ne_empty id
  have hcomplete := isComplete_of_accepted hcalls ht hall
  refine ⟨t, hsound.slotOf?_eq_some.mpr ⟨ht, rfl⟩, hcomplete, ?_⟩
  exact (faithful_of_feeds hcalls).contents_eq ht (hsound.slot t ht) hcomplete

/-- The newest unit has no gap. -/
theorem exists_front (hcalls : ∀ c ∈ calls, b.Feeds channel top c) (htop : top ≤ b.last)
    (hsettled : Settled b.toSender ((empty channel limits).trace calls)) {i : Nat}
    (hi : i ∈ accepted ((empty channel limits).trace calls) top) :
    ∃ t, ((empty channel limits).run calls).slotOf? top = some t ∧ i ≤ t.highest ∧
      ∀ j, j ≤ t.highest → t.holds j = true := by
  have hsound := (sound_empty channel limits).run calls
  have hne := Finset.ne_empty_of_mem hi
  obtain ⟨t, ht, hid⟩ := exists_slot_of_accepted hcalls htop hne
  have htopped := (extent_run channel limits calls).topped t ht
  have hfilled := (faithful_of_feeds hcalls).filled t ht
  rw [hid] at hfilled
  have hhigh := htopped.highest_mem (by rw [hfilled]; exact hne)
  refine ⟨t, hsound.slotOf?_eq_some.mpr ⟨ht, hid⟩, htopped.le (by rw [hfilled]; exact hi), ?_⟩
  intro j hj
  rw [← Slot.mem_filled]
  rcases Nat.lt_or_eq_of_le hj with hlt | heq
  · rw [hfilled] at hhigh ⊢
    exact hsettled.front top hne (fun y hy => (accepted_within hcalls hy).2) _ hhigh j hlt
  · rw [heq]
    exact hhigh

end Rounds

/--
**A ring recovers every loss.**  A sender keeps all fragments of a batch, and a ring that
has seen nothing receives some of them, in any order.  However many rounds have been made,
at whatever times:

* in the next round every request is answered, and every answer is kept;
* if there were as many rounds as fragments missing at the start, nothing more is asked
  for;
* if nothing more is asked for, all units from the oldest one received up to the newest
  one are complete, and the newest one has everything up to the highest index received.
-/
theorem recovers_every_loss (channel : Channel) (limits : Limits) (store : Store)
    (b : Batch limits store) (hstore : store.Sound) (hmax : 1 ≤ limits.maxRequests)
    (hround : 1 ≤ limits.maxPerRound) (received : List Packet)
    (hreceived : ∀ p ∈ received, p ∈ b.packets channel) (hsome : received ≠ [])
    (times : List Int) :
    let r := recoverAll times (store.insertAll (b.packets channel))
      ((empty channel limits).run (received.map .receive))
    (∀ now, ∀ o ∈ (recover now r.1 r.2).1, o = some .stored ∨ o = some .completed) ∧
    ((b.missing channel received).card ≤ times.length → ∀ now, (r.2.request now).1 = []) ∧
    ∀ now, (r.2.request now).1 = [] →
      (∀ id, (∃ p ∈ received, p.id ≤ id) → (∃ p ∈ received, id < p.id) →
        ∃ t, r.2.slotOf? id = some t ∧ t.isComplete = true ∧ t.contents = b.payload id) ∧
      ∀ p ∈ received, (∀ q ∈ received, q.id ≤ p.id) →
        ∃ t, r.2.slotOf? p.id = some t ∧ p.index.toNat ≤ t.highest ∧
          ∀ i, i ≤ t.highest → t.holds i = true := by
  intro r
  have hlast : ∀ p ∈ received, p ∈ b.packets channel ∧ p.id ≤ b.last := by
    intro p hp
    obtain ⟨id, i, -, hle, -, rfl⟩ := Batch.mem_packets.mp (hreceived p hp)
    exact ⟨hreceived _ hp, hle⟩
  have hstage := stage_of_received hstore (Int32.le_refl _) hlast hsome
  obtain ⟨later, hrun, hend, hgrows⟩ := hstage.rounds (Int32.le_refl _) hmax hround times
  change r.2 = _ at hrun
  change Stage b channel b.last _ r.1 later at hend
  have haccepted (p : Packet) (hp : p ∈ received) :
      accepted ((empty channel limits).trace later) p.id ≠ ∅ :=
    Finset.ne_empty_of_mem
      (hgrows p.id ((recovering_of_received (Int32.le_refl _) hlast).2 p hp))
  refine ⟨?_, ?_, ?_⟩
  · intro now
    obtain ⟨_, _, hanswered, -⟩ := hend.round (Int32.le_refl _) hmax hround now
    rw [hrun]
    exact hanswered.kept
  · intro henough now
    rw [Nat.sub_eq_zero_of_le henough] at hend
    rw [hrun, hend.request_nil_iff (Int32.le_refl _) hmax hround]
    exact hend.settled_of_zero (Int32.le_refl _) hmax hround
  · intro now hnil
    rw [hrun] at hnil ⊢
    refine ⟨?_, ?_⟩
    · intro id hlow hhigh
      obtain ⟨p, hp, hpid⟩ := hlow
      obtain ⟨q, hq, hidq⟩ := hhigh
      have hsettled := (hend.request_nil_iff (Int32.le_refl _) hmax hround now).mp hnil
      exact exists_complete hend.recovering.feeds (Int32.le_refl _) hsettled (haccepted p hp)
        hpid (haccepted q hq) hidq
    · -- The same rounds, seen as rounds that never go beyond the newest unit received.
      intro p hp hnewest
      have htop : p.id ≤ b.last := (hlast p hp).2
      have hbelow : ∀ q ∈ received, q ∈ b.packets channel ∧ q.id ≤ p.id :=
        fun q hq => ⟨hreceived q hq, hnewest q hq⟩
      obtain ⟨later', hrun', hend', hgrows'⟩ :=
        (stage_of_received hstore htop hbelow hsome).rounds htop hmax hround times
      change r.2 = _ at hrun'
      rw [← hrun, hrun'] at hnil ⊢
      exact exists_front hend'.recovering.feeds htop
        ((hend'.request_nil_iff htop hmax hround now).mp hnil)
        (hgrows' p.id ((recovering_of_received htop hbelow).2 p hp))

/-- Units 5 to 7, of three bytes each, in fragments of two. -/
def threeUnits : Batch { size := 4 } (Store.empty 4000 4) where
  toSender := threeBytes
  first := 5
  last := 7
  few := by decide
  places id _ _ := by
    show fragmentCount 3 2 ≤ 5
    decide

/-- Only the last fragments of the first unit and of the last one come through, so the
unit in between is missing entirely; it is there after four rounds. -/
theorem recovers_unit_between :
    ∃ t, (recoverAll [0, 0, 0, 0]
        ((Store.empty 4000 4).insertAll (threeUnits.packets .video))
        ((empty .video { size := 4 }).run
          ([threeUnits.fragment .video 5 1, threeUnits.fragment .video 7 1].map
            .receive))).2.slotOf? 6 = some t ∧
      t.isComplete = true ∧ t.contents = [1, 2, 3] := by
  have hrecovers := recovers_every_loss .video { size := 4 } (Store.empty 4000 4) threeUnits
    (Store.sound_empty 4000 4) (by decide) (by decide)
    [threeUnits.fragment .video 5 1, threeUnits.fragment .video 7 1] (by decide) (by decide)
    [0, 0, 0, 0]
  have hnil := hrecovers.2.1 (by decide) 0
  exact (hrecovers.2.2 0 hnil).1 6 ⟨threeUnits.fragment .video 5 1, by decide⟩
    ⟨threeUnits.fragment .video 7 1, by decide⟩

end Assembly

end Framecast
