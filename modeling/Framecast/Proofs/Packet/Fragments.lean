/-
What the fragments of a unit carry.

`piece payload limit i` is the stretch of the payload that fragment `i` carries, and
`fragmentAt` is the whole packet.  A packet is among the fragments of a unit exactly
if it is one of these for an index below the number of fragments, so nothing later
needs to look at how the list is made.

The pieces follow one another without gap or overlap, and there are enough of them:
put together in the order of their indices they give the payload back.
-/
import Mathlib.Data.List.Basic
import Framecast.Packet.Unit

namespace Framecast

/-- The bytes that fragment `i` of a payload carries. -/
def piece (payload : Bytes) (limit i : Nat) : Bytes :=
  (payload.drop (i * max limit 1)).take (max limit 1)

/-- Fragment `i` of a unit. -/
def fragmentAt (channel : Channel) (id : Int32) (payload : Bytes) (limit i : Nat) : Packet :=
  { channel
    id
    index := UInt16.ofNat i
    count := UInt16.ofNat (fragmentCount payload.length limit)
    payload := piece payload limit i }

/-! ### The fragments, one by one -/

theorem fragmentCount_pos (size limit : Nat) : 0 < fragmentCount size limit := by
  unfold fragmentCount
  split
  · exact Nat.one_pos
  · have hstep : 0 < max limit 1 := by omega
    exact Nat.div_pos (by omega) hstep

/-- The fragments have room for the whole payload. -/
theorem le_fragmentCount_mul (size limit : Nat) :
    size ≤ fragmentCount size limit * max limit 1 := by
  unfold fragmentCount
  split
  · omega
  · have hstep : 0 < max limit 1 := by omega
    have hdiv := Nat.div_add_mod (size + (max limit 1 - 1)) (max limit 1)
    have hmod := Nat.mod_lt (size + (max limit 1 - 1)) hstep
    rw [Nat.mul_comm]
    omega

theorem fragments_eq_map (channel : Channel) (id : Int32) (payload : Bytes) (limit : Nat) :
    fragments channel id payload limit =
      (List.range (fragmentCount payload.length limit)).map
        (fragmentAt channel id payload limit) := by
  unfold fragments
  refine List.map_congr_left fun i _ => ?_
  simp only [fragmentAt, piece, Array.toList_extract, List.extract_eq_take_drop,
    Nat.add_one_mul, Nat.add_sub_cancel_left]

theorem length_fragments (channel : Channel) (id : Int32) (payload : Bytes) (limit : Nat) :
    (fragments channel id payload limit).length = fragmentCount payload.length limit := by
  rw [fragments_eq_map, List.length_map, List.length_range]

theorem mem_fragments {channel : Channel} {id : Int32} {payload : Bytes} {limit : Nat}
    {p : Packet} :
    p ∈ fragments channel id payload limit ↔
      ∃ i, i < fragmentCount payload.length limit ∧
        p = fragmentAt channel id payload limit i := by
  rw [fragments_eq_map, List.mem_map]
  constructor
  · rintro ⟨i, hi, rfl⟩
    exact ⟨i, List.mem_range.mp hi, rfl⟩
  · rintro ⟨i, hi, rfl⟩
    exact ⟨i, List.mem_range.mpr hi, rfl⟩

theorem length_piece_le (payload : Bytes) (limit i : Nat) :
    (piece payload limit i).length ≤ max limit 1 := by
  rw [piece, List.length_take]
  exact Nat.min_le_left _ _

/-! ### Index and count survive in sixteen bits -/

theorem toNat_index_fragmentAt (channel : Channel) (id : Int32) (payload : Bytes)
    (limit i : Nat) (h : i < 65536) :
    (fragmentAt channel id payload limit i).index.toNat = i := by
  simp only [fragmentAt, UInt16.toNat_ofNat']
  omega

theorem toNat_count_fragmentAt (channel : Channel) (id : Int32) (payload : Bytes)
    (limit i : Nat) (h : fragmentCount payload.length limit ≤ 65535) :
    (fragmentAt channel id payload limit i).count.toNat =
      fragmentCount payload.length limit := by
  simp only [fragmentAt, UInt16.toNat_ofNat']
  omega

/-- The fragments of a unit have different indices. -/
theorem pairwise_index_fragments {channel : Channel} {id : Int32} {payload : Bytes} {limit : Nat}
    (h : fragmentCount payload.length limit ≤ 65535) :
    (fragments channel id payload limit).Pairwise fun p q => p.index ≠ q.index := by
  rw [fragments_eq_map, List.pairwise_map]
  refine List.pairwise_lt_range.imp_of_mem fun {i j} hi hj hlt => ?_
  rw [List.mem_range] at hi hj
  intro hsame
  have heq := congrArg UInt16.toNat hsame
  rw [toNat_index_fragmentAt _ _ _ _ _ (by omega),
    toNat_index_fragmentAt _ _ _ _ _ (by omega)] at heq
  omega

/-! ### The pieces put together -/

/-- The first `n` pieces make up the front of the payload. -/
theorem flatten_range_piece (payload : Bytes) (limit n : Nat) :
    ((List.range n).map (piece payload limit)).flatten = payload.take (n * max limit 1) := by
  induction n with
  | zero => simp
  | succ n ih =>
      rw [List.range_succ, List.map_append, List.flatten_append, ih, Nat.add_one_mul,
        List.take_add]
      simp [piece]

/-- **The pieces of a payload, in the order of their indices, are the payload.** -/
theorem flatten_pieces (payload : Bytes) (limit : Nat) :
    ((List.range (fragmentCount payload.length limit)).map (piece payload limit)).flatten =
      payload := by
  rw [flatten_range_piece]
  exact List.take_of_length_le (le_fragmentCount_mul payload.length limit)

end Framecast
