/-
When packets can be put together, and to what.

Nothing is assumed of the packets here: they may come from anywhere, contradict one
another, repeat and lack some.  `Whole` says what it takes, without looking at how the
places are filled: there is a packet, all packets tell of one unit, each has a place in
it, and each place has a packet.  `Joins` says what comes out: for each place, in order,
the payload of the first packet that has it.

Packets drawn from the fragments of one unit tell of that unit and have a place in it,
so for them only the last of the conditions is left, and what comes out is the payload
that was cut.
-/
import Mathlib.Data.List.Forall2
import Framecast.Proofs.Packet.Fragments

namespace Framecast

/-- The packets are all fragments of one unit, and each of its fragments is there. -/
structure Whole (packets : List Packet) : Prop where
  ne_nil : packets ≠ []
  agree : ∀ p ∈ packets, ∀ q ∈ packets, p.channel = q.channel ∧ p.id = q.id ∧ p.count = q.count
  placed : ∀ p ∈ packets, p.index < p.count
  covered : ∀ p ∈ packets, ∀ i, i < p.count.toNat → ∃ q ∈ packets, q.index.toNat = i

/-- The first packet with index `i` carries `b`. -/
def FirstAt (packets : List Packet) (i : Nat) (b : Bytes) : Prop :=
  ∃ before p after, packets = before ++ p :: after ∧ p.index.toNat = i ∧ p.payload = b ∧
    ∀ q ∈ before, q.index.toNat ≠ i

/-- `b` is made of one piece for each fragment of the unit, in the order of the indices,
and each is the first that is there. -/
def Joins (packets : List Packet) (b : Bytes) : Prop :=
  ∃ pieces : List Bytes, b = pieces.flatten ∧ (∀ p ∈ packets, pieces.length = p.count.toNat) ∧
    ∀ i (h : i < pieces.length), FirstAt packets i pieces[i]

variable {packets : List Packet} {first : Packet} {i : Nat} {b : Bytes}

/-! ### One place -/

theorem payloadAt?_eq_some_iff : payloadAt? packets i = some b ↔ FirstAt packets i b := by
  unfold payloadAt? FirstAt
  rw [Option.map_eq_some_iff]
  constructor
  · rintro ⟨p, hfind, hb⟩
    obtain ⟨hp, before, after, hsplit, hbefore⟩ := List.find?_eq_some_iff_append.mp hfind
    refine ⟨before, p, after, hsplit, of_decide_eq_true hp, hb, fun q hq hi => ?_⟩
    have hnot := hbefore q hq
    rw [decide_eq_true hi] at hnot
    cases hnot
  · rintro ⟨before, p, after, hsplit, hp, hb, hbefore⟩
    refine ⟨p, List.find?_eq_some_iff_append.mpr ⟨decide_eq_true hp, before, after, hsplit, ?_⟩, hb⟩
    intro q hq
    rw [decide_eq_false (hbefore q hq)]
    rfl

theorem isSome_payloadAt?_iff :
    (payloadAt? packets i).isSome ↔ ∃ q ∈ packets, q.index.toNat = i := by
  unfold payloadAt?
  rw [Option.isSome_map, List.find?_isSome]
  simp only [decide_eq_true_eq]

/-! ### All places -/

theorem mapM_eq_some_iff {α β : Type} {f : α → Option β} {list : List α} {bs : List β} :
    list.mapM f = some bs ↔ List.Forall₂ (fun a b => f a = some b) list bs := by
  induction list generalizing bs with
  | nil =>
      rw [List.forall₂_nil_left_iff, List.mapM_nil]
      exact ⟨fun h => (Option.some.inj h).symm, fun h => congrArg some h.symm⟩
  | cons a rest ih =>
      rw [List.forall₂_cons_left_iff, List.mapM_cons]
      constructor
      · intro h
        obtain ⟨c, hc, h⟩ := Option.bind_eq_some_iff.mp h
        obtain ⟨cs, hcs, h⟩ := Option.bind_eq_some_iff.mp h
        exact ⟨c, cs, hc, ih.mp hcs, (Option.some.inj h).symm⟩
      · rintro ⟨c, cs, hc, hcs, rfl⟩
        rw [hc, ih.mpr hcs]
        rfl

theorem mapM_eq_some_map {α β : Type} {f : α → Option β} {g : α → β} {list : List α}
    (h : ∀ a ∈ list, f a = some (g a)) : list.mapM f = some (list.map g) := by
  rw [mapM_eq_some_iff, List.forall₂_map_right_iff]
  exact List.forall₂_same.mpr h

/-- The test of the packets is that they agree with the first of them and have a
place. -/
theorem all_sameUnit_iff (hfirst : first ∈ packets) :
    (packets.all fun p => p.sameUnit first && p.index.toNat < first.count.toNat) = true ↔
      (∀ p ∈ packets, ∀ q ∈ packets,
        p.channel = q.channel ∧ p.id = q.id ∧ p.count = q.count) ∧
        ∀ p ∈ packets, p.index < p.count := by
  simp only [List.all_eq_true, Packet.sameUnit, Bool.and_eq_true, decide_eq_true_eq, and_assoc]
  constructor
  · intro h
    refine ⟨fun p hp q hq => ?_, fun p hp => ?_⟩
    · obtain ⟨hpchannel, hpid, hpcount, -⟩ := h p hp
      obtain ⟨hqchannel, hqid, hqcount, -⟩ := h q hq
      exact ⟨hpchannel.trans hqchannel.symm, hpid.trans hqid.symm, hpcount.trans hqcount.symm⟩
    · obtain ⟨-, -, hcount, hlt⟩ := h p hp
      rw [UInt16.lt_iff_toNat_lt, hcount]
      exact hlt
  · rintro ⟨hagree, hplaced⟩ p hp
    obtain ⟨hchannel, hid, hcount⟩ := hagree p hp first hfirst
    have hlt := UInt16.lt_iff_toNat_lt.mp (hplaced p hp)
    rw [hcount] at hlt
    exact ⟨hchannel, hid, hcount, hlt⟩

theorem unfragment_eq_some_iff_of_head (hfirst : packets.head? = some first) :
    unfragment packets = some b ↔
      (packets.all fun p => p.sameUnit first && p.index.toNat < first.count.toNat) = true ∧
        ∃ pieces, (List.range first.count.toNat).mapM (payloadAt? packets) = some pieces ∧
          pieces.flatten = b := by
  obtain ⟨rest, rfl⟩ := List.head?_eq_some_iff.mp hfirst
  unfold unfragment
  dsimp only
  split
  · rename_i hall
    rw [Option.map_eq_some_iff]
    exact ⟨fun h => ⟨hall, h⟩, fun h => h.2⟩
  · rename_i hall
    exact ⟨fun h => (by cases h), fun h => absurd h.1 hall⟩

/-- The pieces are those of the places, one after another. -/
theorem mapM_payloadAt?_eq_some_iff {n : Nat} {pieces : List Bytes} :
    (List.range n).mapM (payloadAt? packets) = some pieces ↔
      pieces.length = n ∧ ∀ i (h : i < pieces.length), FirstAt packets i pieces[i] := by
  rw [mapM_eq_some_iff, List.forall₂_iff_get]
  constructor
  · rintro ⟨hlength, h⟩
    rw [List.length_range] at hlength
    refine ⟨hlength.symm, fun i hi => payloadAt?_eq_some_iff.mp ?_⟩
    have hplace := h i (by rw [List.length_range]; omega) hi
    rwa [List.get_eq_getElem, List.getElem_range] at hplace
  · rintro ⟨hlength, h⟩
    refine ⟨by rw [List.length_range, hlength], fun i _ hi => ?_⟩
    rw [List.get_eq_getElem, List.getElem_range]
    exact payloadAt?_eq_some_iff.mpr (h i hi)

/-- **What is put together is made of the first packet for each place.** -/
theorem unfragment_eq_some_iff :
    unfragment packets = some b ↔ Whole packets ∧ Joins packets b := by
  cases hhead : packets.head? with
  | none =>
      rw [List.head?_eq_none_iff] at hhead
      rw [hhead]
      exact ⟨fun h => (by cases h), fun h => absurd rfl h.1.ne_nil⟩
  | some first =>
      have hfirst : first ∈ packets := List.mem_of_mem_head? hhead
      rw [unfragment_eq_some_iff_of_head hhead, all_sameUnit_iff hfirst]
      constructor
      · rintro ⟨⟨hagree, hplaced⟩, pieces, hpieces, rfl⟩
        obtain ⟨hlength, hfirsts⟩ := mapM_payloadAt?_eq_some_iff.mp hpieces
        have hcount : ∀ p ∈ packets, pieces.length = p.count.toNat := fun p hp => by
          rw [hlength, (hagree p hp first hfirst).2.2]
        refine ⟨⟨List.ne_nil_of_mem hfirst, hagree, hplaced, fun p hp i hi => ?_⟩,
          pieces, rfl, hcount, hfirsts⟩
        rw [← hcount p hp] at hi
        rw [← isSome_payloadAt?_iff, payloadAt?_eq_some_iff.mpr (hfirsts i hi)]
        rfl
      · rintro ⟨hwhole, pieces, rfl, hcount, hfirsts⟩
        exact ⟨⟨hwhole.agree, hwhole.placed⟩, pieces,
          mapM_payloadAt?_eq_some_iff.mpr ⟨hcount first hfirst, hfirsts⟩, rfl⟩

/-- A whole unit can be put together. -/
theorem exists_joins (h : Whole packets) : ∃ b, Joins packets b := by
  obtain ⟨first, hfirst⟩ := List.exists_mem_of_ne_nil packets h.ne_nil
  have hsome : ∀ i, i < first.count.toNat → (payloadAt? packets i).isSome := fun i hi =>
    isSome_payloadAt?_iff.mpr (h.covered first hfirst i hi)
  have hpieces : (List.range first.count.toNat).mapM (payloadAt? packets) =
      some ((List.range first.count.toNat).map fun i => (payloadAt? packets i).getD []) := by
    refine mapM_eq_some_map fun i hi => ?_
    obtain ⟨piece, hpiece⟩ := Option.isSome_iff_exists.mp (hsome i (List.mem_range.mp hi))
    rw [hpiece, Option.getD_some]
  obtain ⟨hlength, hfirsts⟩ := mapM_payloadAt?_eq_some_iff.mp hpieces
  refine ⟨_, _, rfl, fun p hp => ?_, hfirsts⟩
  rw [hlength, (h.agree p hp first hfirst).2.2]

theorem isSome_unfragment_iff : (unfragment packets).isSome ↔ Whole packets := by
  rw [Option.isSome_iff_exists]
  constructor
  · rintro ⟨b, hb⟩
    exact (unfragment_eq_some_iff.mp hb).1
  · intro h
    obtain ⟨b, hb⟩ := exists_joins h
    exact ⟨b, unfragment_eq_some_iff.mpr ⟨h, hb⟩⟩

/-! ### The length of the pieces -/

section Pieces

variable {channel : Channel} {id : Int32} {payload : Bytes} {limit : Nat}

/-- All fragments but the last are full. -/
theorem add_one_mul_le_of_lt_fragmentCount {size : Nat} (h : i + 1 < fragmentCount size limit) :
    (i + 1) * max limit 1 ≤ size := by
  unfold fragmentCount at h
  split at h
  · omega
  · have hstep : 0 < max limit 1 := by omega
    have hroom := (Nat.le_div_iff_mul_le hstep).mp h
    rw [Nat.succ_mul] at hroom
    omega

theorem length_piece (payload : Bytes) (h : i < fragmentCount payload.length limit) :
    (piece payload limit i).length =
      if i + 1 < fragmentCount payload.length limit then max limit 1
      else payload.length - i * max limit 1 := by
  rw [piece, List.length_take, List.length_drop]
  split
  · rename_i hfull
    have hroom := add_one_mul_le_of_lt_fragmentCount hfull
    rw [Nat.add_one_mul] at hroom
    omega
  · rename_i hlast
    have hroom := le_fragmentCount_mul payload.length limit
    have hi : fragmentCount payload.length limit = i + 1 := by omega
    rw [hi, Nat.add_one_mul] at hroom
    omega

/-! ### Packets drawn from the fragments of one unit -/

theorem payloadAt?_eq_piece (hcount : fragmentCount payload.length limit ≤ 65535)
    (hmem : ∀ p, p ∈ packets ↔ p ∈ fragments channel id payload limit)
    (hi : i < fragmentCount payload.length limit) :
    payloadAt? packets i = some (piece payload limit i) := by
  have hfragment : fragmentAt channel id payload limit i ∈ packets :=
    (hmem _).mpr (mem_fragments.mpr ⟨i, hi, rfl⟩)
  have hindex := toNat_index_fragmentAt channel id payload limit i (by omega)
  obtain ⟨b, hb⟩ := Option.isSome_iff_exists.mp
    (isSome_payloadAt?_iff.mpr ⟨_, hfragment, hindex⟩)
  obtain ⟨before, p, after, hsplit, hplace, rfl, -⟩ := payloadAt?_eq_some_iff.mp hb
  have hp : p ∈ packets := by
    rw [hsplit]
    exact List.mem_append_right before (List.mem_cons_self ..)
  obtain ⟨j, hj, rfl⟩ := mem_fragments.mp ((hmem p).mp hp)
  rw [toNat_index_fragmentAt channel id payload limit j (by omega)] at hplace
  rw [hb, hplace]
  rfl

/-- **The fragments of a unit give it back,** in whichever order and however often they
come. -/
theorem unfragment_eq_some (hcount : fragmentCount payload.length limit ≤ 65535)
    (hmem : ∀ p, p ∈ packets ↔ p ∈ fragments channel id payload limit) :
    unfragment packets = some payload := by
  have hone : ∀ p ∈ packets, p.channel = channel ∧ p.id = id ∧
      p.count = UInt16.ofNat (fragmentCount payload.length limit) ∧ p.index < p.count := by
    intro p hp
    obtain ⟨i, hi, rfl⟩ := mem_fragments.mp ((hmem p).mp hp)
    refine ⟨rfl, rfl, rfl, ?_⟩
    rw [UInt16.lt_iff_toNat_lt, toNat_count_fragmentAt channel id payload limit i hcount,
      toNat_index_fragmentAt channel id payload limit i (by omega)]
    exact hi
  have hagree : ∀ p ∈ packets, ∀ q ∈ packets,
      p.channel = q.channel ∧ p.id = q.id ∧ p.count = q.count := by
    intro p hp q hq
    obtain ⟨hpchannel, hpid, hpcount, -⟩ := hone p hp
    obtain ⟨hqchannel, hqid, hqcount, -⟩ := hone q hq
    exact ⟨hpchannel.trans hqchannel.symm, hpid.trans hqid.symm, hpcount.trans hqcount.symm⟩
  cases hhead : packets.head? with
  | none =>
      have hsome : fragmentAt channel id payload limit 0 ∈ packets :=
        (hmem _).mpr (mem_fragments.mpr ⟨0, fragmentCount_pos _ _, rfl⟩)
      rw [List.head?_eq_none_iff.mp hhead] at hsome
      cases hsome
  | some first =>
      have hfirst : first ∈ packets := List.mem_of_mem_head? hhead
      have hsize : first.count.toNat = fragmentCount payload.length limit := by
        rw [(hone first hfirst).2.2.1]
        exact toNat_count_fragmentAt channel id payload limit 0 hcount
      rw [unfragment_eq_some_iff_of_head hhead, all_sameUnit_iff hfirst, hsize]
      refine ⟨⟨hagree, fun p hp => (hone p hp).2.2.2⟩, _, mapM_eq_some_map fun i hi => ?_,
        flatten_pieces payload limit⟩
      exact payloadAt?_eq_piece hcount hmem (List.mem_range.mp hi)

/-- Packets that cover all fragments of a unit are all its fragments. -/
theorem mem_iff_of_covers (hcount : fragmentCount payload.length limit ≤ 65535)
    (hdrawn : ∀ p ∈ packets, p ∈ fragments channel id payload limit)
    (hall : ∀ i, i < fragmentCount payload.length limit → ∃ p ∈ packets, p.index.toNat = i)
    (p : Packet) : p ∈ packets ↔ p ∈ fragments channel id payload limit := by
  refine ⟨hdrawn p, fun hp => ?_⟩
  obtain ⟨i, hi, rfl⟩ := mem_fragments.mp hp
  obtain ⟨q, hq, hindex⟩ := hall i hi
  obtain ⟨j, hj, rfl⟩ := mem_fragments.mp (hdrawn q hq)
  rw [toNat_index_fragmentAt _ _ _ _ _ (by omega)] at hindex
  rwa [hindex] at hq

/-- Packets drawn from a unit that lack one of its fragments are not whole. -/
theorem unfragment_eq_none_of_lacking (hcount : fragmentCount payload.length limit ≤ 65535)
    (hdrawn : ∀ p ∈ packets, p ∈ fragments channel id payload limit)
    (hlacking : ¬ ∀ i, i < fragmentCount payload.length limit →
      ∃ p ∈ packets, p.index.toNat = i) : unfragment packets = none := by
  rw [← Option.not_isSome_iff_eq_none, isSome_unfragment_iff]
  intro hwhole
  obtain ⟨first, hfirst⟩ := List.exists_mem_of_ne_nil packets hwhole.ne_nil
  refine hlacking fun i hi => hwhole.covered first hfirst i ?_
  obtain ⟨j, -, rfl⟩ := mem_fragments.mp (hdrawn first hfirst)
  rwa [toNat_count_fragmentAt _ _ _ _ _ hcount]

end Pieces

/--
**Cutting and putting together.**  If the fragments of a payload can be counted in
sixteen bits, there are as many as it needs; fragment `i` has index `i` and tells the
number of fragments, and all but the last carry as much as they may.  Whatever is drawn
from them, in any order and with repetitions, gives the payload back if every index is
there, and nothing otherwise.

Any packets at all can be put together exactly if they are whole, and what comes out is
for each place, in order, the payload of the first packet that has it.
-/
theorem puts_together_what_was_cut (channel : Channel) (id : Int32) (payload : Bytes)
    (limit : Nat) (hlimit : 1 ≤ limit) (hcount : fragmentCount payload.length limit ≤ 65535) :
    (fragments channel id payload limit).length = fragmentCount payload.length limit ∧
      (∀ i p, (fragments channel id payload limit)[i]? = some p →
        p.channel = channel ∧ p.id = id ∧ p.index.toNat = i ∧
          p.count.toNat = fragmentCount payload.length limit ∧
          p.payload.length =
            if i + 1 < fragmentCount payload.length limit then limit
            else payload.length - i * limit) ∧
      (∀ drawn : List Packet, (∀ p ∈ drawn, p ∈ fragments channel id payload limit) →
        unfragment drawn =
          if ∀ i, i < fragmentCount payload.length limit → ∃ p ∈ drawn, p.index.toNat = i
          then some payload else none) ∧
      ∀ packets : List Packet, ((unfragment packets).isSome ↔ Whole packets) ∧
        ∀ b, unfragment packets = some b → Joins packets b := by
  have hmax : max limit 1 = limit := by omega
  refine ⟨length_fragments .., fun i p hp => ?_, fun drawn hdrawn => ?_,
    fun packets => ⟨isSome_unfragment_iff, fun b hb => (unfragment_eq_some_iff.mp hb).2⟩⟩
  · rw [fragments_eq_map, List.getElem?_map] at hp
    obtain ⟨j, hj, rfl⟩ := Option.map_eq_some_iff.mp hp
    obtain ⟨hi, hplace⟩ := List.getElem?_eq_some_iff.mp hj
    rw [List.getElem_range] at hplace
    rw [List.length_range] at hi
    subst hplace
    refine ⟨rfl, rfl, toNat_index_fragmentAt _ _ _ _ _ (by omega),
      toNat_count_fragmentAt _ _ _ _ _ hcount, ?_⟩
    show (piece payload limit i).length = _
    rw [length_piece payload hi, hmax]
  · split
    · rename_i hall
      exact unfragment_eq_some hcount (mem_iff_of_covers hcount hdrawn hall)
    · rename_i hlacking
      exact unfragment_eq_none_of_lacking hcount hdrawn hlacking

/-- Five bytes are cut in twos.  Without the middle fragment nothing comes out; with it
the bytes do, though the last fragment comes first and twice. -/
theorem puts_five_bytes_together :
    let start : Packet := ⟨.audio, -1, 0, 3, false, [1, 2]⟩
    let middle : Packet := ⟨.audio, -1, 1, 3, false, [3, 4]⟩
    let last : Packet := ⟨.audio, -1, 2, 3, false, [5]⟩
    unfragment [last, start] = none ∧
      unfragment [last, middle, last, start] = some [1, 2, 3, 4, 5] := by
  obtain ⟨-, -, hdrawn, -⟩ :=
    puts_together_what_was_cut .audio (-1) [1, 2, 3, 4, 5] 2 (by decide) (by decide)
  refine ⟨(hdrawn _ ?_).trans (if_neg (by decide)), (hdrawn _ ?_).trans (if_pos (by decide))⟩
  · decide
  · decide

end Framecast
