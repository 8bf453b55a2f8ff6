/-
Bytes written as pairs of hexadecimal digits.

Reading takes digits of either case and works on the bytes of the text, so a
character beyond ASCII counts as several places and its first byte is the one
reported.  An odd number of places is reported before any digit is looked at.
-/
import Framecast.Bytes.Field

namespace Framecast.Hex

/-- Why a text does not spell bytes. -/
inductive Fault where
  | oddLength
  /-- The byte at this place is no digit. -/
  | badDigit (byte : UInt8) (place : Nat)
  deriving DecidableEq, Repr

/-- The digit that an ASCII byte stands for. -/
def digit? (b : UInt8) : Option UInt8 :=
  if 0x30 ≤ b ∧ b ≤ 0x39 then some (b - 0x30)
  else if 0x41 ≤ b ∧ b ≤ 0x46 then some (b - 0x41 + 10)
  else if 0x61 ≤ b ∧ b ≤ 0x66 then some (b - 0x61 + 10)
  else none

/-- Reads pairs of digits; `place` counts the bytes before them. -/
def pairs (place : Nat) : Bytes → Except Fault Bytes
  | [] => .ok []
  | [_] => .error .oddLength
  | hi :: lo :: rest =>
    match digit? hi, digit? lo with
    | none, _ => .error (.badDigit hi place)
    | some _, none => .error (.badDigit lo (place + 1))
    | some h, some l => (pairs (place + 2) rest).map ((h * 16 + l) :: ·)

/-- The bytes that a text of hexadecimal digits spells. -/
def decode (text : Bytes) : Except Fault Bytes :=
  if text.length % 2 = 1 then .error .oddLength else pairs 0 text

end Framecast.Hex
