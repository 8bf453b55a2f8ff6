/-
Reading a configuration document.

A document is a sequence of lines, each a header, a key with its value, or blank.  A
key belongs to the table of the last header.  Lists and tables in braces may span
lines, hold comments, and end with a comma; within braces a line may also end on either
side of an equals sign, but not within a key.  Lists and braces nest at most 80 deep.
-/
import Framecast.Toml.Quoted
import Framecast.Toml.Scalar

namespace Framecast.Toml

/-- How deep lists and braces may nest. -/
def maxDepth : Nat := 80

/-- The rest of a text behind a comment that starts it, if its characters are
allowed. -/
def skipComment? : List Char → Option (List Char)
  | '#' :: s => skipPlain s
  | s => some s
where
  /-- What follows the rest of a comment. -/
  skipPlain : List Char → Option (List Char)
  | [] => some []
  | '\n' :: s => some ('\n' :: s)
  | '\r' :: '\n' :: s => some ('\r' :: '\n' :: s)
  | c :: s => if isPlain c then skipPlain s else none

/-- What follows blanks, comments and line ends, from within a comment or not. -/
def skipFrom? : (inComment : Bool) → List Char → Option (List Char)
  | _, [] => some []
  | _, '\n' :: s => skipFrom? false s
  | _, '\r' :: '\n' :: s => skipFrom? false s
  | true, c :: s => if isPlain c then skipFrom? true s else none
  | false, c :: s =>
    if c = '#' then skipFrom? true s
    else if isSpace c then skipFrom? false s
    else some (c :: s)

/-- What follows blanks, comments and line ends. -/
def skipBlank? (s : List Char) : Option (List Char) :=
  skipFrom? false s

/-- Reads the items of a list up to its closing bracket; `steps` bounds how many. -/
def takeItems? (item : List Char → Option (Value × List Char)) :
    (steps : Nat) → List Char → Option (List Value × List Char)
  | 0, _ => none
  | steps + 1, s => do
    match ← skipBlank? s with
    | ']' :: s => some ([], s)
    | s =>
      let (v, s) ← item s
      match ← skipBlank? s with
      | ',' :: s => do
        let (vs, s) ← takeItems? item steps s
        some (v :: vs, s)
      | ']' :: s => some ([v], s)
      | _ => none

/-- Reads a key, an equals sign and a value; `gap?` skips what may stand on either side
of the sign. -/
def takePair? (gap? : List Char → Option (List Char))
    (item : List Char → Option (Value × List Char)) (s : List Char) :
    Option (List String × Value × List Char) := do
  let (keys, s) ← takeKey? s
  let s ← takeChar? '=' (← gap? s)
  let (v, s) ← item (← gap? s)
  some (keys, v, s)

/-- Adds a pair to a table. -/
def addPair? (keys : List String) (v : Value) (origin : Origin) (es : Entries) :
    Option (Origin × Entries) := do
  let key ← keys.getLast?
  es.insertAt? keys.dropLast key v origin

/-- Reads the pairs of a table in braces up to its closing brace and adds them to those
before; `steps` bounds how many. -/
def takePairs? (item : List Char → Option (Value × List Char)) :
    (steps : Nat) → Entries → List Char → Option (Entries × List Char)
  | 0, _, _ => none
  | steps + 1, es, s => do
    match ← skipBlank? s with
    | '\x7d' :: s => some (es, s)
    | s =>
      let (keys, v, s) ← takePair? skipBlank? item s
      let (_, es) ← addPair? keys v .braces es
      match ← skipBlank? s with
      | ',' :: s => takePairs? item steps es s
      | '\x7d' :: s => some (es, s)
      | _ => none

/-- Reads a value that nests at most `depth` deep and returns what follows it; `steps`
bounds how many items a list or table has. -/
def takeValue? (steps : Nat) : (depth : Nat) → List Char → Option (Value × List Char)
  | 0, s => takeFlat? s
  | depth + 1, s =>
    match s with
    | '[' :: s => (takeItems? (takeValue? steps depth) steps s).map fun (vs, s) => (.list vs, s)
    | '\x7b' :: s =>
      (takePairs? (takeValue? steps depth) steps [] s).map fun (es, s) => (.table .braces es, s)
    | s => takeFlat? s
where
  /-- Reads a value without brackets. -/
  takeFlat? (s : List Char) : Option (Value × List Char) :=
    match s with
    | '"' :: _ | '\'' :: _ => (takeText? s).map fun (t, s) => (.text t, s)
    | _ => takeScalar? s

/-- A document so far, and the header its next keys stand under. -/
structure Draft where
  entries : Entries := []
  header : List String := []
  deriving Repr, Inhabited

namespace Draft

/-- Opens the table, or the next table, that a header names. -/
def openHeader? (d : Draft) (keys : List String) (repeated : Bool) : Option Draft := do
  let key ← keys.getLast?
  let enter := if repeated then Entries.openRow? key else Entries.openTable? key
  let (_, entries) ← Entries.within false keys.dropLast enter .header d.entries
  some { entries, header := keys }

/-- Adds a pair under the header. -/
def add? (d : Draft) (keys : List String) (v : Value) : Option Draft := do
  let (_, entries) ← Entries.within false d.header (addPair? keys v) .header d.entries
  some { d with entries }

end Draft

/-- Reads what stands in front of the comment of a line. -/
def takeExpression? (d : Draft) (s : List Char) : Option (Draft × List Char) :=
  match s with
  | [] => some (d, s)
  | '#' :: _ => some (d, s)
  | '\n' :: _ => some (d, s)
  | '\r' :: _ => some (d, s)
  | '[' :: '[' :: s => do
    let (keys, s) ← takeKey? s
    let s ← takeChar? ']' s
    let s ← takeChar? ']' s
    let d ← d.openHeader? keys true
    some (d, s)
  | '[' :: s => do
    let (keys, s) ← takeKey? s
    let s ← takeChar? ']' s
    let d ← d.openHeader? keys false
    some (d, s)
  | s => do
    let item := takeValue? s.length maxDepth
    let (keys, v, s) ← takePair? (fun s => some (s.dropWhile isSpace)) item s
    let d ← d.add? keys v
    some (d, s)

/-- Reads lines; `steps` bounds how many. -/
def takeLines? : (steps : Nat) → Draft → List Char → Option Draft
  | 0, _, _ => none
  | steps + 1, d, s => do
    let (d, s) ← takeExpression? d (s.dropWhile isSpace)
    match ← skipComment? (s.dropWhile isSpace) with
    | [] => some d
    | '\n' :: s => takeLines? steps d s
    | '\r' :: '\n' :: s => takeLines? steps d s
    | _ => none

/-- The text without a byte order mark. -/
def dropMark : List Char → List Char
  | '\ufeff' :: s => s
  | s => s

/-- The entries of a document.  A text has at most one line more than characters. -/
def parse? (text : List Char) : Option Entries :=
  let s := dropMark text
  (takeLines? (s.length + 1) {} s).map Draft.entries

end Framecast.Toml
