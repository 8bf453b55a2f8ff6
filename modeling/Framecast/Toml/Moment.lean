/-
Points in time of a configuration document.

A moment is a date, a time of day, or a date with a time behind a `T` or a space.
Only the last may have an offset from universal time.  The seconds may be left out,
and then there is no fraction either.
-/
import Framecast.Text.Numeral

namespace Framecast.Toml

/-- The number that exactly `width` decimal digits spell, if there are that many. -/
def fixed? (width : Nat) (s : List Char) : Option (Nat × List Char) :=
  if width ≤ s.length then
    ((s.take width).mapM (Text.digitValue? 10)).map fun ds => (Text.number 10 ds, s.drop width)
  else none

/-- Reads a character. -/
def takeChar? (c : Char) : List Char → Option (List Char)
  | [] => none
  | d :: rest => if c = d then some rest else none

/-- Whether a year has a 29th of February. -/
def isLeap (year : Nat) : Bool :=
  year % 4 = 0 && (year % 100 ≠ 0 || year % 400 = 0)

/-- The days of a month. -/
def daysIn (year month : Nat) : Nat :=
  if month = 2 then (if isLeap year then 29 else 28)
  else if month = 4 ∨ month = 6 ∨ month = 9 ∨ month = 11 then 30
  else 31

/-- What follows a date. -/
def afterDate? (s : List Char) : Option (List Char) := do
  let (year, s) ← fixed? 4 s
  let s ← takeChar? '-' s
  let (month, s) ← fixed? 2 s
  let s ← takeChar? '-' s
  let (day, s) ← fixed? 2 s
  if 1 ≤ month ∧ month ≤ 12 ∧ 1 ≤ day ∧ day ≤ daysIn year month then some s else none

/-- What follows the fraction of a second, if one comes. -/
def afterFraction? : List Char → Option (List Char)
  | '.' :: s =>
    let (digits, rest) := Text.takeDigits 10 s
    if digits.isEmpty then none else some rest
  | s => some s

/-- What follows the seconds of a time of day, if they come. -/
def afterSeconds? : List Char → Option (List Char)
  | ':' :: s => do
    let (second, s) ← fixed? 2 s
    -- a minute may have a leap second
    if second ≤ 60 then afterFraction? s else none
  | s => some s

/-- What follows a time of day. -/
def afterTime? (s : List Char) : Option (List Char) := do
  let (hour, s) ← fixed? 2 s
  let s ← takeChar? ':' s
  let (minute, s) ← fixed? 2 s
  if hour ≤ 23 ∧ minute ≤ 59 then afterSeconds? s else none

/-- Whether a text is empty or an offset from universal time. -/
def isOffset : List Char → Bool
  | [] => true
  | ['Z'] => true
  | ['z'] => true
  | c :: s =>
    if c = '+' ∨ c = '-' then
      match fixed? 2 s with
      | some (hours, ':' :: s) =>
        match fixed? 2 s with
        | some (minutes, []) => hours ≤ 23 && minutes ≤ 59
        | _ => false
      | _ => false
    else false

/-- Whether a word is a date, a time, or both. -/
def isMoment (s : List Char) : Bool :=
  match afterDate? s with
  | some [] => true
  | some (c :: s) =>
    (c = 'T' || c = 't' || c = ' ') && (afterTime? s).any isOffset
  | none => afterTime? s = some []

end Framecast.Toml
