/-
Text and characters in quotes, as error messages show them.

A backslash, the quote itself, tab, line feed, carriage return and the null
character are written with a backslash and a letter; a hidden character is written
by its code point in braces; all else stands for itself.
-/
import Framecast.Text.Hidden

namespace Framecast.Text

/-- The lower-case hexadecimal digits of `n`, without leading zeros. -/
def hexNumeral (n : Nat) : List Char :=
  Nat.toDigits 16 n

/-- How `c` is written between two marks `mark`. -/
def escape (mark c : Char) : List Char :=
  if c = '\x00' then ['\\', '0']
  else if c = '\t' then ['\\', 't']
  else if c = '\r' then ['\\', 'r']
  else if c = '\n' then ['\\', 'n']
  else if c = '\\' ∨ c = mark then ['\\', c]
  else if isHidden c then '\\' :: 'u' :: '\x7b' :: hexNumeral c.toNat ++ ['\x7d']
  else [c]

/-- A text between double quotes. -/
def quote (s : List Char) : List Char :=
  '"' :: s.flatMap (escape '"') ++ ['"']

/-- One character between single quotes. -/
def quoteChar (c : Char) : List Char :=
  '\'' :: escape '\'' c ++ ['\'']

end Framecast.Text
