/-
A unit whose fragments all come in, in any order, on a ring that has seen nothing.

It arrives exactly if it has no more fragments than the ring admits.  If it has more,
every single fragment is refused and the ring stays as it is: nothing is asked for
again, and nothing counts as skipped.
-/
import Framecast.Proofs.Assembly.Delivery

namespace Framecast

namespace Assembly

/-- After the packets came in, in this order, the unit was completed once and can be
handed on. -/
def Arrives (a : Assembly) (id : Int32) (payload : Bytes) (packets : List Packet) : Prop :=
  completions (a.trace (packets.map .receive)) id = 1 ∧
    ∃ c, (a.run (packets.map .receive)).take? id = some (payload, c)

/-! ### What is admitted -/

section Admission

variable {channel : Channel} {limits : Limits} {id : Int32} {payload : Bytes} {limit : Nat}

/-- A fragment is admitted exactly if its unit has not too many of them. -/
theorem admits_fragment (hpos : 1 ≤ limit) (hle : limit ≤ Packet.maxPayload)
    (hcount : fragmentCount payload.length limit ≤ 65535) {p : Packet}
    (hp : p ∈ fragments channel id payload limit) :
    (empty channel limits).admits p = true ↔
      fragmentCount payload.length limit ≤ limits.maxFragments := by
  obtain ⟨i, hi, rfl⟩ := mem_fragments.mp hp
  have hindex := toNat_index_fragmentAt channel id payload limit i (by omega)
  have hsize := toNat_count_fragmentAt channel id payload limit i hcount
  have hlength : (fragmentAt channel id payload limit i).payload.length ≤ Packet.maxPayload := by
    have hpiece := length_piece_le payload limit i
    show (piece payload limit i).length ≤ Packet.maxPayload
    omega
  have hnonzero : (fragmentAt channel id payload limit i).count ≠ 0 := by
    intro hc
    rw [hc] at hsize
    have hzero : (0 : UInt16).toNat = 0 := rfl
    omega
  have hlt : (fragmentAt channel id payload limit i).index <
      (fragmentAt channel id payload limit i).count := by
    rw [UInt16.lt_iff_toNat_lt, hindex, hsize]
    exact hi
  have hchannel : (fragmentAt channel id payload limit i).channel =
      (empty channel limits).channel := rfl
  have hmax : (empty channel limits).limits.maxFragments = limits.maxFragments := rfl
  simp [admits, hchannel, hnonzero, hlt, hsize, hlength, hmax]

/-- The sender of a single unit. -/
def solo (limits : Limits) (id : Int32) (payload : Bytes) (limit : Nat) (hpos : 1 ≤ limit)
    (hle : limit ≤ Packet.maxPayload) (hmax : 1 ≤ min limits.maxFragments 65535)
    (hcount : fragmentCount payload.length limit ≤ min limits.maxFragments 65535) :
    Sender limits where
  payload x := if x = id then payload else []
  limit _ := limit
  limit_pos _ := hpos
  limit_le _ := hle
  count_le x := by
    by_cases hx : x = id
    · rw [if_pos hx]
      exact hcount
    · rw [if_neg hx]
      exact hmax

/-- Fragments are not marked as sent again. -/
theorem resent_fragment {p : Packet} (hp : p ∈ fragments channel id payload limit) :
    { p with resent := false } = p := by
  obtain ⟨i, -, rfl⟩ := mem_fragments.mp hp
  rfl

theorem id_fragment {p : Packet} (hp : p ∈ fragments channel id payload limit) : p.id = id := by
  obtain ⟨i, -, rfl⟩ := mem_fragments.mp hp
  rfl

end Admission

/-! ### Fragments that are kept -/

/-- **A fragment is kept** if it is admitted, its unit is neither finished nor pushed
out, and its index is new. -/
theorem takesIn_of_new {limits : Limits} {sender : Sender limits} {steps : List Step}
    {a : Assembly} (h : Faithful sender steps a) (ha : a.Sound) {channel : Channel} {p : Packet}
    (hsent : sender.Sends channel p) (hadmits : a.admits p = true)
    (hfin : a.isFinished p.id = false)
    (hold : ∀ s ∈ a, a.position s.id = a.position p.id → s.id ≤ p.id)
    (hnew : p.index.toNat ∉ accepted steps p.id) : ∃ s, a.TakesIn p s := by
  obtain ⟨hcount, -⟩ := hsent.shape
  refine (receive_cases ha p).resolve_left fun hrefused => ?_
  obtain ⟨s, hs, hpos, hlt | ⟨hid, hfits⟩⟩ := hrefused.exists_slot ha hadmits hfin
  · exact Int32.not_lt.mpr (hold s hs hpos) hlt
  · apply hfits
    refine ⟨?_, index_lt_of_admits hadmits, ?_⟩
    · rw [hcount, ← hid]
      exact h.count s hs
    · rw [h.filled s hs, hid]
      exact hnew

/-- A ring with nothing but one unit in it, of which nothing was handed on. -/
structure Alone (a : Assembly) (id : Int32) : Prop where
  only : ∀ s ∈ a, s.id = id
  unfinished : a.lastTaken = none

namespace Alone

variable {a : Assembly} {id : Int32}

theorem receive (h : Alone a id) (ha : a.Sound) {p : Packet} (hp : p.id = id) :
    Alone (a.receive p).2 id where
  only := by
    intro t ht
    rcases receive_cases ha p with hrefused | ⟨s, hs⟩
    · exact h.only t (hrefused.mem_iff.mp ht)
    · rw [receive_of_takesIn ha hs] at ht
      rcases (hs.mem_keepIn ha).mp ht with rfl | ⟨hold, -⟩
      · rw [Slot.id_accept, hs.id_eq, hp]
      · exact h.only t hold
  unfinished := by
    rw [(opening_receive ha p).lastTaken]
    exact h.unfinished

end Alone

section Arrival

variable {channel : Channel} {limits : Limits} {sender : Sender limits} {id : Int32}

/-- While fragments of one unit come in, each is kept: the indices accepted are those
that came. -/
theorem accepted_of_fragments {packets : List Packet}
    (hsent : ∀ p ∈ packets, sender.Sends channel p ∧ p.id = id ∧
      (empty channel limits).admits p = true)
    (hindices : (packets.map fun p => p.index.toNat).Nodup) :
    Alone ((empty channel limits).run (packets.map .receive)) id ∧
      ∀ i, i ∈ accepted ((empty channel limits).trace (packets.map .receive)) id ↔
        ∃ p ∈ packets, p.index.toNat = i := by
  induction packets using List.reverseRecOn with
  | nil =>
      refine ⟨⟨fun s hs => absurd hs (not_mem_empty channel limits s), rfl⟩, fun i => ?_⟩
      simp [trace, accepted]
  | append_singleton packets p ih =>
      rw [List.map_append, List.nodup_append] at hindices
      obtain ⟨hnodup, -, hapart⟩ := hindices
      obtain ⟨halone, haccepted⟩ := ih (fun q hq => hsent q (List.mem_append_left _ hq)) hnodup
      obtain ⟨hp, hid, hadmits⟩ := hsent p (by simp)
      have hsound := (sound_empty channel limits).run (packets.map .receive)
      have hcalls : ∀ c ∈ packets.map Call.receive, sender.Allows channel c := by
        intro c hc
        obtain ⟨q, hq, rfl⟩ := List.mem_map.mp hc
        exact Or.inl (hsent q (List.mem_append_left _ hq)).1
      have hnew : p.index.toNat ∉
          accepted ((empty channel limits).trace (packets.map .receive)) p.id := by
        rw [hid, haccepted]
        rintro ⟨q, hq, heq⟩
        exact hapart q.index.toNat (List.mem_map.mpr ⟨q, hq, rfl⟩) p.index.toNat (by simp) heq
      obtain ⟨s, hs⟩ := takesIn_of_new (faithful_run hcalls) hsound hp
        (by rw [admits_run (sound_empty channel limits)]; exact hadmits)
        (isFinished_of_lastTaken halone.unfinished p.id)
        (fun t ht _ => by rw [halone.only t ht, hid]; exact Int32.le_refl _) hnew
      have hstep := accepted_of_takesIn hsound hs
        ((empty channel limits).trace (packets.map .receive))
      rw [List.map_append, List.map_singleton, run_concat, trace_concat]
      refine ⟨halone.receive hsound hid, fun i => ?_⟩
      rw [hid] at hstep
      rw [hstep, Finset.mem_insert, haccepted]
      constructor
      · rintro (rfl | ⟨q, hq, heq⟩)
        · exact ⟨p, by simp, rfl⟩
        · exact ⟨q, List.mem_append_left _ hq, heq⟩
      · rintro ⟨q, hq, heq⟩
        rcases List.mem_append.mp hq with hold | hlast
        · exact Or.inr ⟨q, hold, heq⟩
        · rw [List.mem_singleton.mp hlast] at heq
          exact Or.inl heq.symm

/-- A unit all of whose indices were accepted can be handed on. -/
theorem take?_of_accepted {calls : List Call} (hcalls : ∀ c ∈ calls, sender.Allows channel c)
    (halone : Alone ((empty channel limits).run calls) id)
    (hall : accepted ((empty channel limits).trace calls) id = sender.indices id) :
    ∃ c, ((empty channel limits).run calls).take? id = some (sender.payload id, c) := by
  have hsound := (sound_empty channel limits).run calls
  have hfaithful : Faithful sender _ ((empty channel limits).run calls) := faithful_run hcalls
  have hpos := sender.count_pos id
  have hne : accepted ((empty channel limits).trace calls) id ≠ ∅ := by
    rw [hall]
    exact sender.indices_ne_empty id
  obtain ⟨s, hs, -, -⟩ := hfaithful.present id hne
  have hid := halone.only s hs
  have hslot := hsound.slot s hs
  have hfilled : s.filled = sender.indices id := by rw [hfaithful.filled s hs, hid, hall]
  have hcount : s.count = sender.count id := by
    rcases hfaithful.count s hs with hzero | hc
    · exfalso
      rw [hslot.filled_of_unsized hzero] at hfilled
      exact hne (by rw [hall, ← hfilled])
    · rw [hc, hid]
  have hcomplete : s.isComplete = true := by
    rw [hslot.isComplete_iff, hcount]
    exact ⟨hpos, hfilled⟩
  have hopen : s.taken = false :=
    hsound.not_taken hs (isFinished_of_lastTaken halone.unfinished s.id)
  refine ⟨_, (take?_eq_some hsound.toPlaced).mpr ⟨s, hs, hid, hopen, hcomplete, ?_, rfl⟩⟩
  rw [hfaithful.contents_eq hs hslot hcomplete, hid]

end Arrival

/-! ### All fragments of a unit -/

section Fragments

variable {channel : Channel} {limits : Limits} {id : Int32} {payload : Bytes} {limit : Nat}
  {packets : List Packet}

theorem nodup_indices (hcount : fragmentCount payload.length limit ≤ 65535)
    (hperm : packets.Perm (fragments channel id payload limit)) :
    (packets.map fun p => p.index.toNat).Nodup := by
  refine (hperm.map fun p => p.index.toNat).nodup_iff.mpr ?_
  rw [fragments_eq_map, List.map_map]
  have hrange : (List.range (fragmentCount payload.length limit)).map
      ((fun p : Packet => p.index.toNat) ∘ fragmentAt channel id payload limit) =
      List.range (fragmentCount payload.length limit) := by
    conv_rhs => rw [← List.map_id (List.range (fragmentCount payload.length limit))]
    refine List.map_congr_left fun i hi => ?_
    exact toNat_index_fragmentAt channel id payload limit i
      (by rw [List.mem_range] at hi; omega)
  rw [hrange]
  exact List.nodup_range

/-- **A unit whose fragments the ring admits arrives,** whatever their order. -/
theorem arrives_of_le (hpos : 1 ≤ limit) (hle : limit ≤ Packet.maxPayload)
    (hcount : fragmentCount payload.length limit ≤ 65535)
    (hmax : fragmentCount payload.length limit ≤ limits.maxFragments)
    (hperm : packets.Perm (fragments channel id payload limit)) :
    Arrives (empty channel limits) id payload packets := by
  have hsome := fragmentCount_pos payload.length limit
  let sender := solo limits id payload limit hpos hle (by omega) (by omega)
  have hpayload : sender.payload id = payload := if_pos rfl
  have hsent : ∀ p ∈ packets, sender.Sends channel p ∧ p.id = id ∧
      (empty channel limits).admits p = true := by
    intro p hp
    have hmem := hperm.mem_iff.mp hp
    refine ⟨⟨id, ?_⟩, id_fragment hmem, (admits_fragment hpos hle hcount hmem).mpr hmax⟩
    rw [hpayload, resent_fragment hmem]
    exact hmem
  obtain ⟨halone, haccepted⟩ := accepted_of_fragments hsent (nodup_indices hcount hperm)
  have hcalls : ∀ c ∈ packets.map Call.receive, sender.Allows channel c := by
    intro c hc
    obtain ⟨p, hp, rfl⟩ := List.mem_map.mp hc
    exact Or.inl (hsent p hp).1
  have hall : accepted ((empty channel limits).trace (packets.map .receive)) id =
      sender.indices id := by
    ext i
    rw [haccepted, Sender.indices, Sender.count, hpayload, Finset.mem_range]
    constructor
    · rintro ⟨p, hp, rfl⟩
      obtain ⟨j, hj, rfl⟩ := mem_fragments.mp (hperm.mem_iff.mp hp)
      rw [toNat_index_fragmentAt channel id payload limit j (by omega)]
      exact hj
    · intro hi
      refine ⟨fragmentAt channel id payload limit i, ?_, ?_⟩
      · exact hperm.mem_iff.mpr (mem_fragments.mpr ⟨i, hi, rfl⟩)
      · exact toNat_index_fragmentAt channel id payload limit i (by
          have hi' : i < fragmentCount payload.length limit := hi
          omega)
  refine ⟨?_, ?_⟩
  · rw [(faithful_run hcalls).once id, if_pos hall]
  · obtain ⟨c, hc⟩ := take?_of_accepted hcalls halone hall
    exact ⟨c, by rw [hc, hpayload]⟩

/-- A unit with more fragments than the ring admits leaves no trace in it. -/
theorem run_of_gt (hpos : 1 ≤ limit) (hle : limit ≤ Packet.maxPayload)
    (hcount : fragmentCount payload.length limit ≤ 65535)
    (hmax : limits.maxFragments < fragmentCount payload.length limit)
    (hsub : ∀ p ∈ packets, p ∈ fragments channel id payload limit) :
    (empty channel limits).run (packets.map .receive) = empty channel limits := by
  induction packets with
  | nil => rfl
  | cons p rest ih =>
      have hp := hsub p (List.mem_cons_self ..)
      have hrefused : ¬ (empty channel limits).admits p = true := by
        rw [admits_fragment hpos hle hcount hp]
        omega
      have hsame : ((empty channel limits).perform (.receive p)).2 = empty channel limits := by
        show ((empty channel limits).receive p).2 = _
        rw [receive, if_pos hrefused]
      show ((empty channel limits).perform (.receive p)).2.run (rest.map .receive) = _
      rw [hsame]
      exact ih fun q hq => hsub q (List.mem_cons_of_mem _ hq)

/-- **All fragments of a unit make it arrive exactly if they are not too many.** -/
theorem arrives_iff (hpos : 1 ≤ limit) (hle : limit ≤ Packet.maxPayload)
    (hcount : fragmentCount payload.length limit ≤ 65535)
    (hperm : packets.Perm (fragments channel id payload limit)) :
    Arrives (empty channel limits) id payload packets ↔
      fragmentCount payload.length limit ≤ limits.maxFragments := by
  constructor
  · rintro ⟨-, c, htake⟩
    by_contra hmax
    rw [run_of_gt hpos hle hcount (by omega) fun p hp => hperm.mem_iff.mp hp] at htake
    obtain ⟨s, hs, -⟩ := (take?_eq_some (placed_empty channel limits)).mp htake
    exact not_mem_empty channel limits s hs
  · intro hmax
    exact arrives_of_le hpos hle hcount hmax hperm

end Fragments

end Assembly

end Framecast
