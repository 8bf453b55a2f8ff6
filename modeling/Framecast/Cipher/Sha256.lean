/-
The SHA-256 hash and the keyed hash made of it.

A message is filled up to whole blocks of 64 bytes with a one bit, zeros and its
length in bits.  Each block is spread to 64 words and stirred into eight words of
state.  The keyed hash hashes the message behind the key, and the result behind the
key again, with two different masks on the key.
-/
import Framecast.Bytes.Blocks

namespace Framecast.Sha256

/-- The state: eight words. -/
structure State where
  a : UInt32
  b : UInt32
  c : UInt32
  d : UInt32
  e : UInt32
  f : UInt32
  g : UInt32
  h : UInt32
  deriving DecidableEq, Repr, Inhabited

/-- The state before the first block: fractions of the square roots of the first eight
primes. -/
def start : State :=
  ⟨0x6A09E667, 0xBB67AE85, 0x3C6EF372, 0xA54FF53A,
   0x510E527F, 0x9B05688C, 0x1F83D9AB, 0x5BE0CD19⟩

/-- The constants of the 64 steps: fractions of the cube roots of the first 64
primes. -/
def constants : List UInt32 :=
  [0x428A2F98, 0x71374491, 0xB5C0FBCF, 0xE9B5DBA5, 0x3956C25B, 0x59F111F1, 0x923F82A4,
   0xAB1C5ED5, 0xD807AA98, 0x12835B01, 0x243185BE, 0x550C7DC3, 0x72BE5D74, 0x80DEB1FE,
   0x9BDC06A7, 0xC19BF174, 0xE49B69C1, 0xEFBE4786, 0x0FC19DC6, 0x240CA1CC, 0x2DE92C6F,
   0x4A7484AA, 0x5CB0A9DC, 0x76F988DA, 0x983E5152, 0xA831C66D, 0xB00327C8, 0xBF597FC7,
   0xC6E00BF3, 0xD5A79147, 0x06CA6351, 0x14292967, 0x27B70A85, 0x2E1B2138, 0x4D2C6DFC,
   0x53380D13, 0x650A7354, 0x766A0ABB, 0x81C2C92E, 0x92722C85, 0xA2BFE8A1, 0xA81A664B,
   0xC24B8B70, 0xC76C51A3, 0xD192E819, 0xD6990624, 0xF40E3585, 0x106AA070, 0x19A4C116,
   0x1E376C08, 0x2748774C, 0x34B0BCB5, 0x391C0CB3, 0x4ED8AA4A, 0x5B9CCA4F, 0x682E6FF3,
   0x748F82EE, 0x78A5636F, 0x84C87814, 0x8CC70208, 0x90BEFFFA, 0xA4506CEB, 0xBEF9A3F7,
   0xC67178F2]

/-- A word turned right by `n` bits. -/
def turn (w : UInt32) (n : UInt32) : UInt32 := (w >>> n) ||| (w <<< (32 - n))

/-- The next word of a schedule, kept newest first. -/
def nextWord (w : List UInt32) : UInt32 :=
  let back (i : Nat) := w.getD (i - 1) 0
  let x := back 15
  let y := back 2
  let s := turn x 7 ^^^ turn x 18 ^^^ (x >>> 3)
  let t := turn y 17 ^^^ turn y 19 ^^^ (y >>> 10)
  back 16 + s + back 7 + t

/-- Adds `n` words to a schedule, kept newest first. -/
def extend : (n : Nat) → List UInt32 → List UInt32
  | 0, w => w
  | n + 1, w => extend n (nextWord w :: w)

/-- The sixteen words of a block. -/
def words (block : Bytes) : List UInt32 :=
  (List.range 16).map fun i => UInt32.ofNat (Field.value ((block.drop (4 * i)).take 4))

/-- The 64 words that a block is spread to. -/
def spread (block : Bytes) : List UInt32 :=
  (extend 48 (words block).reverse).reverse

/-- One step, with its word and its constant. -/
def step (s : State) (wk : UInt32 × UInt32) : State :=
  let mixed := turn s.e 6 ^^^ turn s.e 11 ^^^ turn s.e 25
  let choice := (s.e &&& s.f) ^^^ (~~~s.e &&& s.g)
  let t := s.h + mixed + choice + wk.2 + wk.1
  let stirred := turn s.a 2 ^^^ turn s.a 13 ^^^ turn s.a 22
  let majority := (s.a &&& s.b) ^^^ (s.a &&& s.c) ^^^ (s.b &&& s.c)
  ⟨t + (stirred + majority), s.a, s.b, s.c, s.d + t, s.e, s.f, s.g⟩

/-- Stirs a block into the state. -/
def stir (s : State) (block : Bytes) : State :=
  let t := ((spread block).zip constants).foldl step s
  ⟨s.a + t.a, s.b + t.b, s.c + t.c, s.d + t.d, s.e + t.e, s.f + t.f, s.g + t.g, s.h + t.h⟩

/-- A message filled up to whole blocks. -/
def pad (m : Bytes) : Bytes :=
  let zeros := (64 - (m.length + 9) % 64) % 64
  m ++ 0x80 :: (List.replicate zeros 0 ++ Field.digits 8 (8 * m.length))

/-- Stirs in all blocks of a filled-up message. -/
def stirAll (s : State) (m : Bytes) : State :=
  (Blocks.cut 64 m).foldl stir s

/-- The 32 bytes of a state. -/
def State.toBytes (s : State) : Bytes :=
  [s.a, s.b, s.c, s.d, s.e, s.f, s.g, s.h].flatMap fun w => Field.digits 4 w.toNat

/-- The hash of a message. -/
def hash (m : Bytes) : Bytes :=
  (stirAll start (pad m)).toBytes

/-- A key filled up to a block, after hashing if it is longer. -/
def blockKey (key : Bytes) : Bytes :=
  let key := if key.length > 64 then hash key else key
  key ++ List.replicate (64 - key.length) 0

/-- The keyed hash of a message. -/
def keyed (key m : Bytes) : Bytes :=
  let k := blockKey key
  let inner := hash (k.map (· ^^^ 0x36) ++ m)
  hash (k.map (· ^^^ 0x5C) ++ inner)

end Framecast.Sha256
