/-
Keys and texts of a configuration document.

Between double quotes a backslash starts an escape, which is a letter or a code point
of two, four or eight hexadecimal digits; between single quotes every character stands
for itself.  Three quotes in a row let a text span lines: a line end
right after them is dropped, and up to two quotes in front of the closing three
belong to the text.  A backslash at the end of a line drops the line end and all
blanks up to the next visible character.
-/
import Framecast.Text.Numeral

namespace Framecast.Toml

/-- Whether a character may stand for itself: anything but control characters, and the
tab. -/
def isPlain (c : Char) : Bool :=
  c = '\t' || (c.toNat ≥ 0x20 && c.toNat ≠ 0x7F)

/-- Whether a character separates words within a line. -/
def isSpace (c : Char) : Bool :=
  c = ' ' || c = '\t'

/-- The character whose code point hexadecimal digits spell. -/
def charOfHex? (digits : List Char) : Option Char := do
  let values ← digits.mapM (Text.digitValue? 16)
  let n := Text.number 16 values
  if n.isValidChar then some (Char.ofNat n) else none

/-- The character that a backslash and a letter stand for. -/
def escaped? : Char → Option Char
  | 'b' => some '\x08'
  | 't' => some '\t'
  | 'n' => some '\n'
  | 'f' => some '\x0c'
  | 'r' => some '\r'
  | 'e' => some '\x1b'
  | '"' => some '"'
  | '\\' => some '\\'
  | _ => none

/-- Puts a character in front of a text that was read. -/
def prepend (c : Char) (r : Option (List Char × List Char)) : Option (List Char × List Char) :=
  r.map fun (s, rest) => (c :: s, rest)

/-- Reads the rest of a text between double quotes. -/
def takeBasic? : List Char → Option (List Char × List Char)
  | [] => none
  | '"' :: rest => some ([], rest)
  | '\\' :: 'x' :: a :: b :: rest =>
    match charOfHex? [a, b] with
    | some x => prepend x (takeBasic? rest)
    | none => none
  | '\\' :: 'u' :: a :: b :: c :: d :: rest =>
    match charOfHex? [a, b, c, d] with
    | some x => prepend x (takeBasic? rest)
    | none => none
  | '\\' :: 'U' :: a :: b :: c :: d :: e :: f :: g :: h :: rest =>
    match charOfHex? [a, b, c, d, e, f, g, h] with
    | some x => prepend x (takeBasic? rest)
    | none => none
  | '\\' :: c :: rest =>
    match escaped? c with
    | some x => prepend x (takeBasic? rest)
    | none => none
  | c :: rest => if c ≠ '\\' ∧ isPlain c then prepend c (takeBasic? rest) else none

/-- Reads the rest of a text between single quotes. -/
def takeLiteral? : List Char → Option (List Char × List Char)
  | [] => none
  | '\'' :: rest => some ([], rest)
  | c :: rest => if isPlain c then prepend c (takeLiteral? rest) else none

/-- The quotes in front of the closing three that belong to a text, and what follows
all of them. -/
def closing (quote : Char) : List Char → List Char × List Char
  | a :: b :: rest =>
    if a = quote ∧ b = quote then ([quote, quote], rest)
    else if a = quote then ([quote], b :: rest)
    else ([], a :: b :: rest)
  | [a] => if a = quote then ([quote], []) else ([], [a])
  | [] => ([], [])

/-- What a backslash at the end of a line does to the characters after it. -/
inductive Folding where
  | none
  /-- Only blanks may come before the line end. -/
  | pending
  /-- Blanks and line ends are dropped. -/
  | dropping
  deriving DecidableEq, Repr

/-- Reads the rest of a text between three double quotes. -/
def takeLongBasic? : Folding → List Char → Option (List Char × List Char)
  | _, [] => none
  | .pending, '\n' :: rest => takeLongBasic? .dropping rest
  | .pending, '\r' :: '\n' :: rest => takeLongBasic? .dropping rest
  | .pending, c :: rest => if isSpace c then takeLongBasic? .pending rest else none
  | .dropping, '\n' :: rest => takeLongBasic? .dropping rest
  | .dropping, '\r' :: '\n' :: rest => takeLongBasic? .dropping rest
  | .dropping, ' ' :: rest => takeLongBasic? .dropping rest
  | .dropping, '\t' :: rest => takeLongBasic? .dropping rest
  | _, '"' :: '"' :: '"' :: rest => some (closing '"' rest)
  | _, '\\' :: 'x' :: a :: b :: rest =>
    match charOfHex? [a, b] with
    | some x => prepend x (takeLongBasic? .none rest)
    | none => .none
  | _, '\\' :: 'u' :: a :: b :: c :: d :: rest =>
    match charOfHex? [a, b, c, d] with
    | some x => prepend x (takeLongBasic? .none rest)
    | none => .none
  | _, '\\' :: 'U' :: a :: b :: c :: d :: e :: f :: g :: h :: rest =>
    match charOfHex? [a, b, c, d, e, f, g, h] with
    | some x => prepend x (takeLongBasic? .none rest)
    | none => .none
  | _, '\\' :: '\n' :: rest => takeLongBasic? .dropping rest
  | _, '\\' :: '\r' :: '\n' :: rest => takeLongBasic? .dropping rest
  | _, '\\' :: c :: rest =>
    if isSpace c then takeLongBasic? .pending rest
    else
      match escaped? c with
      | some x => prepend x (takeLongBasic? .none rest)
      | none => .none
  | _, '\n' :: rest => prepend '\n' (takeLongBasic? .none rest)
  | _, '\r' :: '\n' :: rest => prepend '\r' (prepend '\n' (takeLongBasic? .none rest))
  | _, c :: rest =>
    if c ≠ '\\' ∧ isPlain c then prepend c (takeLongBasic? .none rest) else .none

/-- Reads the rest of a text between three single quotes. -/
def takeLongLiteral? : List Char → Option (List Char × List Char)
  | [] => none
  | '\'' :: '\'' :: '\'' :: rest => some (closing '\'' rest)
  | '\n' :: rest => prepend '\n' (takeLongLiteral? rest)
  | '\r' :: '\n' :: rest => prepend '\r' (prepend '\n' (takeLongLiteral? rest))
  | c :: rest => if isPlain c then prepend c (takeLongLiteral? rest) else none

/-- The text without a line end at its start. -/
def dropLineEnd : List Char → List Char
  | '\n' :: rest => rest
  | '\r' :: '\n' :: rest => rest
  | s => s

/-- Reads a text in quotes of any kind and returns what follows it. -/
def takeText? : List Char → Option (String × List Char)
  | '"' :: '"' :: '"' :: rest =>
    (takeLongBasic? .none (dropLineEnd rest)).map fun (s, rest) => (String.ofList s, rest)
  | '"' :: rest => (takeBasic? rest).map fun (s, rest) => (String.ofList s, rest)
  | '\'' :: '\'' :: '\'' :: rest =>
    (takeLongLiteral? (dropLineEnd rest)).map fun (s, rest) => (String.ofList s, rest)
  | '\'' :: rest => (takeLiteral? rest).map fun (s, rest) => (String.ofList s, rest)
  | _ => none

/-- Whether a character may be part of a key without quotes. -/
def isKeyChar (c : Char) : Bool :=
  c.isAlphanum || c = '-' || c = '_'

/-- Reads one part of a key and returns what follows it. -/
def takeKeyPart? : List Char → Option (String × List Char)
  | '"' :: rest => (takeBasic? rest).map fun (s, rest) => (String.ofList s, rest)
  | '\'' :: rest => (takeLiteral? rest).map fun (s, rest) => (String.ofList s, rest)
  | s =>
    let word := s.takeWhile isKeyChar
    if word.isEmpty then none else some (String.ofList word, s.dropWhile isKeyChar)

/-- Reads a key of at most `parts` parts with dots between them. -/
def takeKeyParts? : (parts : Nat) → List Char → Option (List String × List Char)
  | 0, _ => none
  | parts + 1, s => do
    let (part, s) ← takeKeyPart? (s.dropWhile isSpace)
    match s.dropWhile isSpace with
    | '.' :: s => do
      let (more, s) ← takeKeyParts? parts s
      some (part :: more, s)
    | s => some ([part], s)

/-- How many parts a key may have. -/
def maxKeyParts : Nat := 80

/-- Reads a key and returns what follows it and the spaces behind it. -/
def takeKey? (s : List Char) : Option (List String × List Char) :=
  takeKeyParts? maxKeyParts s

end Framecast.Toml
