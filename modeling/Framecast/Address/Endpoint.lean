/-
Endpoints: an address and a number of 16 bits that tells the sockets of one machine
apart.

IPv6 addresses are written in brackets, with the number of the scope behind a percent
sign unless it is zero.
-/
import Framecast.Address.IPv6

namespace Framecast

/-- Where datagrams come from and go to. -/
inductive Endpoint where
  | v4 (ip : IPv4) (socket : UInt16)
  | v6 (ip : IPv6) (scope : UInt32) (socket : UInt16)
  deriving DecidableEq, Repr

namespace Endpoint

/-- Any address of a machine, and any socket, in the family of an endpoint. -/
def anyLike : Endpoint → Endpoint
  | v4 .. => v4 .unspecified 0
  | v6 .. => v6 .unspecified 0 0

instance : Inhabited Endpoint := ⟨v4 .unspecified 0⟩

/-- The written form. -/
def render : Endpoint → String
  | v4 ip socket => ip.render ++ ":" ++ toString socket.toNat
  | v6 ip scope socket =>
    let scope := if scope = 0 then "" else "%" ++ toString scope.toNat
    "[" ++ ip.render ++ scope ++ "]:" ++ toString socket.toNat

/-- Reads a colon and the number of a socket. -/
def takeSocket? : List Char → Option (UInt16 × List Char)
  | ':' :: s => (Text.NumeralForm.take? { bound := 65536 } s).map fun (n, s) => (UInt16.ofNat n, s)
  | _ => none

/-- Reads a percent sign and the number of a scope, which may be missing. -/
def takeScope (s : List Char) : UInt32 × List Char :=
  match s with
  | '%' :: rest =>
    match Text.NumeralForm.take? { bound := 4294967296 } rest with
    | some (n, rest) => (UInt32.ofNat n, rest)
    | none => (0, s)
  | _ => (0, s)

/-- Reads the form with an IPv4 address. -/
def takeV4? (s : List Char) : Option (Endpoint × List Char) := do
  let (ip, s) ← IPv4.take? s
  let (socket, s) ← takeSocket? s
  some (v4 ip socket, s)

/-- Reads the form with an IPv6 address. -/
def takeV6? : List Char → Option (Endpoint × List Char)
  | '[' :: s => do
    let (ip, s) ← IPv6.take? s
    match takeScope s with
    | (scope, ']' :: s) =>
      let (socket, s) ← takeSocket? s
      some (v6 ip scope socket, s)
    | _ => none
  | _ => none

/-- The endpoint that a text is the written form of. -/
def parse? (text : List Char) : Option Endpoint :=
  match (takeV4? text).orElse fun _ => takeV6? text with
  | some (endpoint, []) => some endpoint
  | _ => none

end Endpoint

end Framecast
