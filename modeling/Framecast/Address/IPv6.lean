/-
IPv6 addresses.

Eight groups of 16 bits, written in hexadecimal with colons between them.  A double
colon stands for one or more groups of zeros, and the last two groups may be written
as an IPv4 address.

In the canonical form the double colon replaces the longest run of zeros, the first
of several, if it is longer than one group, and only mapped IPv4 addresses use dots.
-/
import Framecast.Address.IPv4

namespace Framecast

/-- An IPv6 address. -/
structure IPv6 where
  groups : List UInt16
  length_groups : groups.length = 8
  deriving DecidableEq, Repr

namespace IPv6

/-- The address with these groups, if there are eight. -/
def ofGroups? (groups : List UInt16) : Option IPv6 :=
  if h : groups.length = 8 then some ⟨groups, h⟩ else none

/-- The address that stands for any. -/
def unspecified : IPv6 := ⟨List.replicate 8 0, by simp⟩

instance : Inhabited IPv6 := ⟨unspecified⟩

/-- The groups between colons. -/
def renderGroups (groups : List UInt16) : String :=
  ":".intercalate (groups.map fun g => String.ofList (Nat.toDigits 16 g.toNat))

/-- The number of zeros from a place on. -/
def zerosFrom (groups : List UInt16) (i : Nat) : Nat :=
  ((groups.drop i).takeWhile (· = 0)).length

/-- Where the longest run of zeros starts, the first of several. -/
def longestZeros (groups : List UInt16) : Nat :=
  (List.range groups.length).foldl
    (fun best i => if zerosFrom groups best < zerosFrom groups i then i else best) 0

/-- The written form. -/
def render (ip : IPv6) : String :=
  match ip.groups with
  | [0, 0, 0, 0, 0, 0xFFFF, high, low] =>
    "::ffff:" ++ (IPv4.ofNat (high.toNat * 65536 + low.toNat)).render
  | groups =>
    let start := longestZeros groups
    let zeros := zerosFrom groups start
    if zeros > 1 then
      renderGroups (groups.take start) ++ "::" ++ renderGroups (groups.drop (start + zeros))
    else renderGroups groups

/-- One group. -/
def group : Text.NumeralForm :=
  { radix := 16, most := some 4, bound := 65536 }

/-- Takes the colon in front of a group that is not the first. -/
def takeColon? (first : Bool) (s : List Char) : Option (List Char) :=
  if first then some s else
  match s with
  | ':' :: s => some s
  | _ => none

/-- The two groups of an IPv4 address. -/
def groupsOf (ip : IPv4) : List UInt16 :=
  [UInt16.ofNat (Field.value [ip.a, ip.b]), UInt16.ofNat (Field.value [ip.c, ip.d])]

/-- Reads up to `room` groups.  Returns them, whether they end in an IPv4 address, and
what follows. -/
def takeGroups : (room : Nat) → (first : Bool) → List Char → List UInt16 × Bool × List Char
  | 0, _, s => ([], false, s)
  | room + 1, first, s =>
    let dotted := if room > 0 then (takeColon? first s).bind IPv4.take? else none
    match dotted with
    | some (ip, rest) => (groupsOf ip, true, rest)
    | none =>
      match (takeColon? first s).bind group.take? with
      | none => ([], false, s)
      | some (g, rest) =>
        let (groups, dotted, rest) := takeGroups room false rest
        (UInt16.ofNat g :: groups, dotted, rest)

/-- Reads an address and returns what follows it. -/
def take? (s : List Char) : Option (IPv6 × List Char) :=
  let (head, dotted, rest) := takeGroups 8 true s
  if h : head.length = 8 then some (⟨head, h⟩, rest)
  else if dotted then none
  else
    match rest with
    | ':' :: ':' :: rest =>
      let (tail, _, rest) := takeGroups (7 - head.length) true rest
      let zeros := List.replicate (8 - head.length - tail.length) 0
      (ofGroups? (head ++ zeros ++ tail)).map (·, rest)
    | _ => none

end IPv6

end Framecast
