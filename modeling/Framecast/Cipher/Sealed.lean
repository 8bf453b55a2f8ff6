/-
Sealed datagrams: Galois/counter mode over AES.

    nonce 12   body   tag 16

The body is the plaintext added to a stream of blocks, one per value of a counter, so
adding the same stream again gives the plaintext back.  The tag is a polynomial in a
secret point whose coefficients are the blocks of the body and its length, added to
one more block of the stream; a datagram with another tag is refused.
-/
import Framecast.Bytes.Blocks
import Framecast.Cipher.Aes
import Framecast.Cipher.Key
import Framecast.Packet.Basic

namespace Framecast

namespace Galois

/-- An element of the field with 2^128 elements; the highest bit is the constant
coefficient. -/
structure Element where
  high : UInt64
  low : UInt64
  deriving DecidableEq, Repr, Inhabited

/-- The element that a block stands for. -/
def Element.ofBlock (x : Aes.Block) : Element :=
  ⟨(x.a.toUInt64 <<< 32) ||| x.b.toUInt64, (x.c.toUInt64 <<< 32) ||| x.d.toUInt64⟩

/-- The block that stands for an element. -/
def Element.toBlock (e : Element) : Aes.Block :=
  ⟨(e.high >>> 32).toUInt32, e.high.toUInt32, (e.low >>> 32).toUInt32, e.low.toUInt32⟩

/-- The sum of two elements. -/
def Element.add (x y : Element) : Element :=
  ⟨x.high ^^^ y.high, x.low ^^^ y.low⟩

/-- A sum so far and a factor that is multiplied by x from bit to bit. -/
structure Running where
  sum : Element
  factor : Element

/-- Multiplies the factor by x. -/
def shift (v : Element) : Element :=
  let carry : UInt64 := if v.low &&& 1 = 1 then 0xE100000000000000 else 0
  ⟨(v.high >>> 1) ^^^ carry, (v.low >>> 1) ||| (v.high <<< 63)⟩

/-- Adds the factor for each of the `n` highest bits of `word` that is set. -/
def addBits : (n : Nat) → (word : UInt64) → Running → Running
  | 0, _, p => p
  | n + 1, word, p =>
    let sum := if word ≥ 0x8000000000000000 then p.sum.add p.factor else p.sum
    addBits n (word <<< 1) ⟨sum, shift p.factor⟩

/-- The product of two elements. -/
def Element.mul (x y : Element) : Element :=
  (addBits 64 x.low (addBits 64 x.high ⟨⟨0, 0⟩, y⟩)).sum

/-- The value at `point` of the polynomial with the blocks of `b` as coefficients,
a short block filled up with zeros, going on from `acc`. -/
def evaluate (point : Element) (acc : Element) (b : Bytes) : Element :=
  (Blocks.cut 16 b).foldl (fun acc x => (acc.add (.ofBlock (.ofBytes x))).mul point) acc

end Galois

namespace Sealed

/-- The bytes of a nonce. -/
def nonceSize : Nat := 12

/-- The bytes of a tag. -/
def tagSize : Nat := 16

/-- The bytes that sealing adds. -/
def overhead : Nat := nonceSize + tagSize

/-- The most bytes of a sealed packet. -/
def maxSize : Nat := Packet.maxSize + overhead

/-- The block of the stream for a nonce and a counter. -/
def streamBlock (s : Aes.Schedule) (nonce : Bytes) (counter : Nat) : Bytes :=
  (Aes.encrypt s (.ofBytes (nonce ++ Field.digits 4 counter))).toBytes

/-- The blocks of the stream that `size` bytes need.  The first counter that goes into
the body is two. -/
def stream (s : Aes.Schedule) (nonce : Bytes) (size : Nat) : Bytes :=
  (List.range (Blocks.count 16 size)).flatMap fun i => streamBlock s nonce (i + 2)

/-- Adds a stream to a text. -/
def add (text stream : Bytes) : Bytes :=
  List.zipWith (· ^^^ ·) text stream

/-- The tag of a body. -/
def tag (s : Aes.Schedule) (nonce body : Bytes) : Bytes :=
  let point := Galois.Element.ofBlock (Aes.encrypt s ⟨0, 0, 0, 0⟩)
  let bits : Galois.Element := ⟨0, UInt64.ofNat (8 * body.length)⟩
  let value := ((Galois.evaluate point ⟨0, 0⟩ body).add bits).mul point
  add value.toBlock.toBytes (streamBlock s nonce 1)

/-- Seals a text under a key and a nonce. -/
def wrap (key : Key) (nonce text : Bytes) : Bytes :=
  let s := Aes.schedule key.bytes
  let body := add text (stream s nonce text.length)
  nonce ++ body ++ tag s nonce body

/-- Opens a sealed datagram, if it was sealed under this key. -/
def unwrap? (key : Key) (datagram : Bytes) : Option Bytes :=
  if datagram.length < overhead then none else
  let nonce := datagram.take nonceSize
  let rest := datagram.drop nonceSize
  let body := rest.take (rest.length - tagSize)
  let given := rest.drop (rest.length - tagSize)
  let s := Aes.schedule key.bytes
  if tag s nonce body = given then some (add body (stream s nonce body.length)) else none

end Sealed

end Framecast
