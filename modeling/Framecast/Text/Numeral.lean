/-
Numerals: runs of digits in a radix of at most sixteen.

Digits beyond nine are letters of either case.  A run stands for the number whose
digits it lists, leading digit first.
-/

namespace Framecast.Text

/-- The value of a digit. -/
def digitValue? (radix : Nat) (c : Char) : Option Nat :=
  let value? :=
    if '0' ≤ c ∧ c ≤ '9' then some (c.toNat - '0'.toNat)
    else if 'a' ≤ c ∧ c ≤ 'f' then some (c.toNat - 'a'.toNat + 10)
    else if 'A' ≤ c ∧ c ≤ 'F' then some (c.toNat - 'A'.toNat + 10)
    else none
  value?.filter (· < radix)

/-- The number with these digits, leading digit first. -/
def number (radix : Nat) (digits : List Nat) : Nat :=
  digits.foldl (fun n d => n * radix + d) 0

/-- Splits the digits off the front of a text. -/
def takeDigits (radix : Nat) : List Char → List Nat × List Char
  | [] => ([], [])
  | c :: rest =>
    match digitValue? radix c with
    | none => ([], c :: rest)
    | some d =>
      let (digits, rest) := takeDigits radix rest
      (d :: digits, rest)

/-- How a numeral may be written where one is expected. -/
structure NumeralForm where
  radix : Nat := 10
  /-- The most digits, if that is limited. -/
  most : Option Nat := none
  /-- Whether a numeral of several digits may start with zero. -/
  leadingZeros : Bool := true
  /-- The number must be below this. -/
  bound : Nat

/-- Reads a numeral, all digits of the run, and returns what follows it. -/
def NumeralForm.take? (form : NumeralForm) (s : List Char) : Option (Nat × List Char) :=
  let (digits, rest) := takeDigits form.radix s
  let n := number form.radix digits
  if digits.isEmpty then none
  else if form.most.any (· < digits.length) then none
  else if ¬ form.leadingZeros ∧ digits.head? = some 0 ∧ digits.length > 1 then none
  else if n < form.bound then some (n, rest)
  else none

end Framecast.Text
