/-
The AES block cipher with a key of 128 bits, forwards only.

A block is four columns of four bytes, the first byte of a column being the highest
byte of its word.  A round substitutes every byte, shifts the rows, mixes each column
and adds a round key; the last round does not mix.  Bytes are polynomials over two
elements modulo x^8 + x^4 + x^3 + x + 1, and the substitution takes the inverse there
and then a fixed affine map.
-/
import Framecast.Bytes.Field

namespace Framecast.Aes

/-- A block of sixteen bytes, by columns. -/
structure Block where
  a : UInt32
  b : UInt32
  c : UInt32
  d : UInt32
  deriving DecidableEq, Repr, Inhabited

namespace Block

/-- The block that a list of sixteen bytes spells; missing bytes count as zero. -/
def ofBytes (b : Bytes) : Block :=
  let word (i : Nat) : UInt32 :=
    let byte (j : Nat) : UInt32 := (b.getD (4 * i + j) 0).toUInt32
    (byte 0 <<< 24) ||| (byte 1 <<< 16) ||| (byte 2 <<< 8) ||| byte 3
  ⟨word 0, word 1, word 2, word 3⟩

/-- The four bytes of a column. -/
def wordBytes (w : UInt32) : Bytes :=
  [(w >>> 24).toUInt8, (w >>> 16).toUInt8, (w >>> 8).toUInt8, w.toUInt8]

/-- The sixteen bytes of a block. -/
def toBytes (x : Block) : Bytes :=
  wordBytes x.a ++ wordBytes x.b ++ wordBytes x.c ++ wordBytes x.d

@[simp] theorem length_toBytes (x : Block) : x.toBytes.length = 16 := rfl

/-- The sum of two blocks. -/
def add (x y : Block) : Block :=
  ⟨x.a ^^^ y.a, x.b ^^^ y.b, x.c ^^^ y.c, x.d ^^^ y.d⟩

end Block

/-! ### Bytes as polynomials -/

/-- The product with x. -/
def double (a : UInt8) : UInt8 :=
  (a <<< 1) ^^^ (if a ≥ 0x80 then 0x1B else 0)

/-- The product of two bytes, adding the doubled `a` for each of `n` bits of `b`. -/
def times : (n : Nat) → UInt8 → UInt8 → UInt8
  | 0, _, _ => 0
  | n + 1, a, b => (if b % 2 = 1 then a else 0) ^^^ times n (double a) (b / 2)

/-- The product of two bytes. -/
def mul (a b : UInt8) : UInt8 := times 8 a b

/-- The `n`-th power of a byte. -/
def power (a : UInt8) : Nat → UInt8
  | 0 => 1
  | n + 1 => mul a (power a n)

/-- The inverse of a byte, zero for zero: the multiplicative group has 255 elements. -/
def inverse (a : UInt8) : UInt8 := power a 254

/-- A byte turned left by `n` bits. -/
def turn (a : UInt8) (n : UInt8) : UInt8 := (a <<< n) ||| (a >>> (8 - n))

/-- The substitution of a byte. -/
def substitute (a : UInt8) : UInt8 :=
  let x := inverse a
  x ^^^ turn x 1 ^^^ turn x 2 ^^^ turn x 3 ^^^ turn x 4 ^^^ 0x63

/-- The substitutions of all bytes, computed once. -/
def substitutions : Array UInt8 :=
  Array.ofFn fun i : Fin 256 => substitute (UInt8.ofNat i.val)

/-- The substitution of the lowest byte of a word, looked up. -/
def lookUp (w : UInt32) : UInt32 :=
  (substitutions.getD w.toUInt8.toNat 0).toUInt32

/-! ### Rounds -/

/-- The substitution of each byte of a word. -/
def substituteWord (w : UInt32) : UInt32 :=
  (lookUp (w >>> 24) <<< 24) ||| (lookUp (w >>> 16) <<< 16) ||| (lookUp (w >>> 8) <<< 8) |||
    lookUp w

/-- The column that the shift of rows collects from four columns. -/
def gather (p q r s : UInt32) : UInt32 :=
  (p &&& 0xFF000000) ||| (q &&& 0x00FF0000) ||| (r &&& 0x0000FF00) ||| (s &&& 0x000000FF)

/-- Substitutes every byte and shifts the rows. -/
def scatter (x : Block) : Block :=
  let a := substituteWord x.a
  let b := substituteWord x.b
  let c := substituteWord x.c
  let d := substituteWord x.d
  ⟨gather a b c d, gather b c d a, gather c d a b, gather d a b c⟩

/-- A word turned left by `n` bits. -/
def turnWord (w : UInt32) (n : UInt32) : UInt32 := (w <<< n) ||| (w >>> (32 - n))

/-- The product of each byte of a word with x. -/
def doubleWord (w : UInt32) : UInt32 :=
  let kept : UInt32 := (w <<< 1) &&& 0xFEFEFEFE
  let carried : UInt32 := (w >>> 7) &&& 0x01010101
  kept ^^^ (carried * 0x1B)

/-- Mixes a column: each byte becomes twice itself, three times the next, and the two
after that. -/
def mixWord (w : UInt32) : UInt32 :=
  let t := doubleWord w
  t ^^^ turnWord (t ^^^ w) 8 ^^^ turnWord w 16 ^^^ turnWord w 24

/-- Mixes every column. -/
def mix (x : Block) : Block :=
  ⟨mixWord x.a, mixWord x.b, mixWord x.c, mixWord x.d⟩

/-- The round key after `k`, with the constant of its round. -/
def nextKey (k : Block) (constant : UInt8) : Block :=
  let t := substituteWord (turnWord k.d 8) ^^^ (constant.toUInt32 <<< 24)
  let a := k.a ^^^ t
  let b := k.b ^^^ a
  let c := k.c ^^^ b
  ⟨a, b, c, k.d ^^^ c⟩

/-- The `n` round keys after `k`. -/
def laterKeys : (n : Nat) → Block → UInt8 → List Block
  | 0, _, _ => []
  | n + 1, k, constant =>
    let k := nextKey k constant
    k :: laterKeys n k (double constant)

/-- A key made ready: the first round key and the ten others. -/
structure Schedule where
  first : Block
  later : List Block
  deriving Repr, Inhabited

/-- Makes a key ready. -/
def schedule (key : Bytes) : Schedule :=
  let first := Block.ofBytes key
  { first, later := laterKeys 10 first 1 }

/-- The rounds of the later keys; the last one does not mix. -/
def rounds : List Block → Block → Block
  | [], x => x
  | [k], x => (scatter x).add k
  | k :: ks, x => rounds ks ((mix (scatter x)).add k)

/-- The image of a block under a key. -/
def encrypt (s : Schedule) (x : Block) : Block :=
  rounds s.later (x.add s.first)

end Framecast.Aes
