/-
Numbers of a configuration document.

A number is judged by its shape when it is read and by its value only when someone
looks at it.  A word of the right shape without a value, such as a whole number of
more than 128 bits, reads as `Value.unreadable`.

The shapes: digits of a radix behind `0x`, `0o` or `0b`; decimal digits without
leading zeros, behind a sign or not; such digits with a fraction, an exponent or both;
and an infinity or no number.  An underscore stands between two digits.  Behind the
first underscore of a decimal whole number the shape asks for no more than that, takes
hexadecimal digits for digits, and refuses spaces; a word with other characters there
has no value.
-/
import Framecast.Text.Numeral
import Framecast.Toml.Value

namespace Framecast.Toml

/-- Splits a sign off. -/
def takeSign : List Char → Bool × List Char
  | '-' :: s => (true, s)
  | '+' :: s => (false, s)
  | s => (false, s)

/-- A number with a sign. -/
def signed (negative : Bool) (n : Nat) : Int :=
  if negative then -(n : Int) else n

/-- Whether a character is a digit of a radix. -/
def isDigitOf (radix : Nat) (c : Char) : Bool :=
  (Text.digitValue? radix c).isSome

/-- Whether each underscore stands between two digits; `behind` tells whether a digit
comes right before. -/
def underscoresFit (isDigit : Char → Bool) : (behind : Bool) → List Char → Bool
  | _, [] => true
  | _, ['_'] => false
  | behind, '_' :: c :: s => behind && isDigit c && underscoresFit isDigit true s
  | _, c :: s => underscoresFit isDigit (isDigit c) s

/-- The number that digits with underscores between them spell, if there are digits
and nothing else. -/
def spelled? (radix : Nat) (s : List Char) : Option Nat :=
  match (s.filter (· ≠ '_')).mapM (Text.digitValue? radix) with
  | some [] => none
  | digits? => digits?.map (Text.number radix)

/-- The value of a word with the shape of a whole number: none if the word spells no
number or one of more than 128 bits. -/
def wholeValue (radix : Nat) (negative : Bool) (s : List Char) : Value :=
  match (spelled? radix s).map (signed negative) with
  | some n =>
    if -(Nat.pow 2 127 : Nat) ≤ n ∧ n < (Nat.pow 2 128 : Nat) then .integer n else .unreadable
  | none => .unreadable

/-- The whole number in the digits of a radix; there may be none. -/
def radixNumber? (radix : Nat) (s : List Char) : Option Value :=
  if s.all (fun c => c = '_' || isDigitOf radix c) ∧ underscoresFit (isDigitOf radix) false s then
    some (wholeValue radix false s)
  else none

/-- Whether `digits * 10 ^ exponent` is too large for a 64-bit floating-point number. -/
def overflows (digits : Nat) (exponent : Int) : Bool :=
  -- from here on numbers are rounded to infinity
  let bound := Nat.pow 2 1024 - Nat.pow 2 970
  let magnitude := ((Nat.toDigits 10 digits).length : Int) + exponent
  if digits = 0 ∨ magnitude < 300 then false
  else if magnitude > 320 then true
  else if exponent ≥ 0 then bound ≤ digits * Nat.pow 10 exponent.toNat
  else bound * Nat.pow 10 (-exponent).toNat ≤ digits

/-- Splits digits and underscores off the front of a text; there must be a digit. -/
def takeRun? (s : List Char) : Option (List Nat × List Char) :=
  let isRun (c : Char) : Bool := c = '_' || c.isDigit
  let digits := (s.takeWhile isRun).filterMap (Text.digitValue? 10)
  if digits.isEmpty then none else some (digits, s.dropWhile isRun)

/-- Splits the digits of a fraction off, if one comes. -/
def takeFraction? : List Char → Option (List Nat × List Char)
  | '.' :: s => takeRun? s
  | s => some ([], s)

/-- Whether a character stands in front of an exponent. -/
def isExponentMark (c : Char) : Bool :=
  c = 'e' || c = 'E'

/-- Splits an exponent off, if one comes. -/
def takeExponent? : List Char → Option (Int × List Char)
  | [] => some (0, [])
  | c :: s =>
    if isExponentMark c then
      let (negative, s) := takeSign s
      (takeRun? s).map fun (digits, s) => (signed negative (Text.number 10 digits), s)
    else some (0, c :: s)

/-- The number with a fraction or an exponent that a text without sign stands for. -/
def realNumber? (s : List Char) : Option Value := do
  let (whole, rest) ← takeRun? s
  let (fraction, rest) ← takeFraction? rest
  let (exponent, rest) ← takeExponent? rest
  if rest ≠ [] ∨ (s.head? = some '0' ∧ whole.length > 1) then none
  else if overflows (Text.number 10 (whole ++ fraction)) (exponent - fraction.length) then
    some .unreadable
  else some .real

/-- The number that a word stands for. -/
def number? : List Char → Option Value
  | '0' :: 'x' :: s => radixNumber? 16 s
  | '0' :: 'o' :: s => radixNumber? 8 s
  | '0' :: 'b' :: s => radixNumber? 2 s
  | word =>
    let (negative, s) := takeSign word
    let rest := s.dropWhile Char.isDigit
    if s = ['i', 'n', 'f'] ∨ s = ['n', 'a', 'n'] then some .real
    else if rest.any fun c => c = '.' || isExponentMark c then
      if underscoresFit Char.isDigit false s then realNumber? s else none
    else if s = [] ∨ (s.head? = some '0' ∧ s.length > 1) then none
    else if rest = [] ∨
        (rest.head? = some '_' ∧ ' ' ∉ rest ∧ underscoresFit (isDigitOf 16) false s) then
      some (wholeValue 10 negative s)
    else none

end Framecast.Toml
