/-
The values of a configuration document.

A table remembers how it came to be, for that decides how it may grow: one written in
braces is closed; one opened by a header may not be opened again; one that only lies
on the way of a header may still be opened; and one made by a dotted key may grow by
dotted keys only.

Numbers with a fraction and points in time are recognised, but nothing configured
here is of that kind, so their values are not kept.  A word may have the shape of a
number and yet no value; a document may hold such a word where nobody looks at it.
-/

namespace Framecast.Toml

/-- How a table came to be. -/
inductive Origin where
  /-- Written in braces. -/
  | braces
  /-- Opened by a header. -/
  | header
  /-- On the way of a header. -/
  | path
  /-- On the way of a dotted key. -/
  | dotted
  deriving DecidableEq, Repr, Inhabited

/-- A value of a document. -/
inductive Value where
  | text (s : String)
  | integer (n : Int)
  /-- A number with a fraction or an exponent, an infinity, or no number at all. -/
  | real
  /-- A date, a time, or both. -/
  | moment
  | truth (b : Bool)
  /-- A word with the shape of a number but no value. -/
  | unreadable
  | list (items : List Value)
  | table (origin : Origin) (entries : List (String × Value))
  /-- The tables opened by repeated double headers, in order. -/
  | tables (rows : List Value)
  deriving Repr, Inhabited

mutual

/-- Whether a value can be looked at in all its parts. -/
def Value.isReadable : Value → Bool
  | .unreadable => false
  | .list items => areReadable items
  | .table _ entries => areReadableEntries entries
  | .tables rows => areReadable rows
  | _ => true

/-- Whether all values of a list can be looked at. -/
def areReadable : List Value → Bool
  | [] => true
  | v :: vs => v.isReadable && areReadable vs

/-- Whether the values of all entries can be looked at. -/
def areReadableEntries : List (String × Value) → Bool
  | [] => true
  | (_, v) :: es => v.isReadable && areReadableEntries es

end

/-- The entries of a table, in the order they were written. -/
abbrev Entries := List (String × Value)

namespace Entries

/-- The value of a key. -/
def get? (es : Entries) (key : String) : Option Value :=
  (es.find? fun e => e.1 = key).map Prod.snd

/-- Replaces the value of a key that has one, or adds the key. -/
def put (es : Entries) (key : String) (v : Value) : Entries :=
  if es.any fun e => e.1 = key then es.map fun e => if e.1 = key then (key, v) else e
  else es ++ [(key, v)]

/-- Applies `f` to the table that `keys` lead to from a table with some entries,
opening the tables on the way that are not there yet.  With `dotted` the keys are
those of a dotted key and may not pass a table opened by a header; otherwise they are
those of a header. -/
def within (dotted : Bool) :
    (keys : List String) → (f : Origin → Entries → Option (Origin × Entries)) →
    (origin : Origin) → Entries → Option (Origin × Entries)
  | [], f, origin, es => f origin es
  | key :: keys, f, origin, es =>
    match get? es key with
    | none => do
      let (inner, sub) ← within dotted keys f (if dotted then .dotted else .path) []
      some (origin, put es key (.table inner sub))
    | some (.table inner sub) =>
      if inner = .braces ∨ (dotted ∧ inner = .header) then none
      else do
        let (inner, sub) ← within dotted keys f inner sub
        some (origin, put es key (.table inner sub))
    | some (.tables rows) =>
      match rows.getLast? with
      | some (.table inner sub) => do
        let (inner, sub) ← within dotted keys f inner sub
        some (origin, put es key (.tables (rows.dropLast ++ [.table inner sub])))
      | _ => none
    | some _ => none

/-- Adds a key to a table.  A table that dotted keys lead to must have been made by
dotted keys. -/
def insert? (dotted : Bool) (key : String) (v : Value) (origin : Origin) (es : Entries) :
    Option (Origin × Entries) :=
  if dotted ≠ (origin = .dotted) ∨ (get? es key).isSome then none
  else some (origin, es ++ [(key, v)])

/-- Adds a dotted key to a table. -/
def insertAt? (keys : List String) (key : String) (v : Value) (origin : Origin) (es : Entries) :
    Option (Origin × Entries) :=
  within true keys (insert? (!keys.isEmpty) key v) origin es

/-- Opens the table of a header. -/
def openTable? (key : String) (origin : Origin) (es : Entries) : Option (Origin × Entries) :=
  match get? es key with
  | none => some (origin, put es key (.table .header []))
  | some (.table .path sub) => some (origin, put es key (.table .header sub))
  | some _ => none

/-- Opens one more table of a double header. -/
def openRow? (key : String) (origin : Origin) (es : Entries) : Option (Origin × Entries) :=
  match get? es key with
  | none => some (origin, put es key (.tables [.table .header []]))
  | some (.tables rows) => some (origin, put es key (.tables (rows ++ [.table .header []])))
  | some _ => none

end Entries

end Framecast.Toml
