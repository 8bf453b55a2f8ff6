/-
Cutting a byte string into blocks.

The blocks follow one another.  All have the wanted size but perhaps the last, which
holds what is left.
-/
import Framecast.Bytes.Field

namespace Framecast.Blocks

/-- The first `n` blocks of `size` bytes. -/
def first (size : Nat) : (n : Nat) → Bytes → List Bytes
  | 0, _ => []
  | n + 1, b => b.take size :: first size n (b.drop size)

/-- How many blocks of `size` bytes it takes to hold `length` bytes. -/
def count (size length : Nat) : Nat := (length + size - 1) / size

/-- The blocks of a byte string. -/
def cut (size : Nat) (b : Bytes) : List Bytes := first size (count size b.length) b

/-- No byte is left over. -/
theorem le_count_mul {size : Nat} (h : 0 < size) (length : Nat) :
    length ≤ count size length * size := by
  have hd := Nat.div_add_mod (length + size - 1) size
  have hm := Nat.mod_lt (length + size - 1) h
  rw [count, Nat.mul_comm]
  omega

end Framecast.Blocks
