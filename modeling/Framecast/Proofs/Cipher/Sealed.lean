/-
Opening undoes sealing.

The body of a sealed datagram is the text added to a stream that depends on nothing but
key and nonce, and the stream is at least as long as the text.  So adding it a second
time gives the text back, and the tag is computed from the same body on both sides.
Nothing needs to be known of the block cipher but that its blocks have sixteen bytes.
-/
import Framecast.Cipher.Sealed

namespace Framecast.Sealed

/-! ### Streams -/

theorem length_streamBlock (s : Aes.Schedule) (nonce : Bytes) (counter : Nat) :
    (streamBlock s nonce counter).length = 16 := by
  rw [streamBlock, Aes.Block.length_toBytes]

theorem length_stream (s : Aes.Schedule) (nonce : Bytes) (size : Nat) :
    (stream s nonce size).length = Blocks.count 16 size * 16 := by
  simp only [stream, List.length_flatMap, length_streamBlock, List.map_const', List.length_range,
    List.sum_replicate_nat]

/-- The stream is as long as the text needs it. -/
theorem le_length_stream (s : Aes.Schedule) (nonce : Bytes) (size : Nat) :
    size ≤ (stream s nonce size).length := by
  rw [length_stream]
  exact Blocks.le_count_mul (by decide) size

theorem length_add {text stream : Bytes} (h : text.length ≤ stream.length) :
    (add text stream).length = text.length := by
  rw [add, List.length_zipWith]
  omega

/-- Adding a stream twice changes nothing. -/
theorem add_add {text stream : Bytes} (h : text.length ≤ stream.length) :
    add (add text stream) stream = text := by
  induction text generalizing stream with
  | nil => rfl
  | cons b rest ih =>
      cases stream with
      | nil => simp at h
      | cons c later =>
          have hlater : rest.length ≤ later.length := by simpa using h
          have hrest := ih hlater
          simp only [add, List.zipWith_cons_cons] at hrest ⊢
          rw [hrest, UInt8.xor_assoc, UInt8.xor_self, UInt8.xor_zero]

/-! ### Sealing and opening -/

theorem length_tag (s : Aes.Schedule) (nonce body : Bytes) :
    (tag s nonce body).length = tagSize := by
  rw [tag, add, List.length_zipWith, length_streamBlock, Aes.Block.length_toBytes]
  rfl

theorem length_body (s : Aes.Schedule) (nonce text : Bytes) :
    (add text (stream s nonce text.length)).length = text.length :=
  length_add (le_length_stream s nonce text.length)

/-- Sealing adds the nonce and the tag. -/
theorem length_wrap (key : Key) {nonce : Bytes} (h : nonce.length = nonceSize) (text : Bytes) :
    (wrap key nonce text).length = text.length + overhead := by
  simp only [wrap, List.length_append, length_tag, length_body, h, overhead]
  omega

/-- Opening looks at a datagram as nonce, body and tag. -/
theorem unwrap?_append (key : Key) {nonce body given : Bytes} (h : nonce.length = nonceSize)
    (hgiven : given.length = tagSize) :
    unwrap? key (nonce ++ (body ++ given)) =
      if tag (Aes.schedule key.bytes) nonce body = given then
        some (add body (stream (Aes.schedule key.bytes) nonce body.length))
      else none := by
  have hlong : ¬ (nonce ++ (body ++ given)).length < overhead := by
    simp only [List.length_append, h, hgiven, overhead]
    omega
  have hrest : (body ++ given).length - tagSize = body.length := by
    rw [List.length_append, hgiven, Nat.add_sub_cancel]
  unfold unwrap?
  simp only [if_neg hlong, ← h, List.take_left, List.drop_left, hrest]

/-- **What was sealed is opened,** by whoever holds the key. -/
theorem unwrap?_wrap (key : Key) {nonce : Bytes} (h : nonce.length = nonceSize) (text : Bytes) :
    unwrap? key (wrap key nonce text) = some text := by
  simp only [wrap]
  rw [List.append_assoc, unwrap?_append key h (length_tag _ _ _), if_pos rfl, length_body,
    add_add (le_length_stream _ nonce text.length)]

end Framecast.Sealed
