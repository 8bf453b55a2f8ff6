/-
Words of a configuration document: numbers, truth values and points in time.

A word ends at a line end, a comment, a bracket, a comma, an equals sign, or blanks
with one of these or a quote behind them; any other character belongs to it.  So a date
and a time with a space between them are one word.
-/
import Framecast.Toml.Moment
import Framecast.Toml.Number
import Framecast.Toml.Quoted

namespace Framecast.Toml

/-- The value that a word stands for. -/
def scalar? (s : List Char) : Option Value :=
  if s = ['t', 'r', 'u', 'e'] then some (.truth true)
  else if s = ['f', 'a', 'l', 's', 'e'] then some (.truth false)
  else if isMoment s then some .moment
  else number? s

/-- Whether a character does not end a word. -/
def isWordChar (c : Char) : Bool :=
  !(['=', ',', '[', ']', '\x7b', '\x7d', '#', '\r', '\n'].contains c)

/-- Whether a character starts a text. -/
def isQuote (c : Char) : Bool :=
  c = '"' || c = '\''

/-- Splits a word off the front of a text.  Blanks belong to it where more of it
follows; a quote belongs to it unless it is `fresh`, with nothing or a blank before
it. -/
def takeWord : (fresh : Bool) → List Char → List Char × List Char
  | _, [] => ([], [])
  | fresh, c :: s =>
    if isSpace c then
      match takeWord true s with
      | ([], _) => ([], c :: s)
      | (word, rest) => (c :: word, rest)
    else if isWordChar c && !(fresh && isQuote c) then
      let (word, rest) := takeWord false s
      (c :: word, rest)
    else ([], c :: s)

/-- Reads a value without quotes or brackets and returns what follows it. -/
def takeScalar? (s : List Char) : Option (Value × List Char) :=
  let (word, rest) := takeWord true s
  (scalar? word).map fun v => (v, rest)

end Framecast.Toml
