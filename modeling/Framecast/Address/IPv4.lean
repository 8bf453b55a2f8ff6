/-
IPv4 addresses.

Written as four numbers with dots between them, each of at most three digits and
without leading zeros.
-/
import Framecast.Bytes.Field
import Framecast.Text.Numeral

namespace Framecast

/-- An IPv4 address. -/
structure IPv4 where
  a : UInt8
  b : UInt8
  c : UInt8
  d : UInt8
  deriving DecidableEq, Repr, Inhabited

namespace IPv4

/-- The address that stands for any. -/
def unspecified : IPv4 := ⟨0, 0, 0, 0⟩

/-- The address of the machine itself. -/
def loopback : IPv4 := ⟨127, 0, 0, 1⟩

/-- The four bytes of an address. -/
def bytes (ip : IPv4) : Bytes := [ip.a, ip.b, ip.c, ip.d]

/-- The address with the bytes of a number of four bytes. -/
def ofNat (n : Nat) : IPv4 :=
  ⟨UInt8.ofNat (n / 0x1000000), UInt8.ofNat (n / 0x10000), UInt8.ofNat (n / 0x100), UInt8.ofNat n⟩

/-- The written form. -/
def render (ip : IPv4) : String :=
  ".".intercalate (ip.bytes.map fun b => toString b.toNat)

/-- One of the four numbers. -/
def part : Text.NumeralForm :=
  { most := some 3, leadingZeros := false, bound := 256 }

/-- Reads a dot and one of the numbers. -/
def takePart? : List Char → Option (Nat × List Char)
  | '.' :: s => part.take? s
  | _ => none

/-- Reads an address and returns what follows it. -/
def take? (s : List Char) : Option (IPv4 × List Char) := do
  let (a, s) ← part.take? s
  let (b, s) ← takePart? s
  let (c, s) ← takePart? s
  let (d, s) ← takePart? s
  some (⟨UInt8.ofNat a, UInt8.ofNat b, UInt8.ofNat c, UInt8.ofNat d⟩, s)

/-- The address that a text is the written form of. -/
def parse? (text : List Char) : Option IPv4 :=
  match take? text with
  | some (ip, []) => some ip
  | _ => none

end IPv4

end Framecast
