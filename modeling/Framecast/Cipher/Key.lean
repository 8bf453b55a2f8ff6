/-
Private keys: sixteen bytes shared by both ends.
-/
import Framecast.Failure
import Framecast.Text.Blank

namespace Framecast

/-- A private key. -/
structure Key where
  bytes : Bytes
  length_bytes : bytes.length = 16
  deriving DecidableEq, Repr

namespace Key

/-- The number of bytes of a key. -/
def size : Nat := 16

/-- The key with these bytes, if there are sixteen. -/
def ofBytes? (b : Bytes) : Option Key :=
  if h : b.length = 16 then some ⟨b, h⟩ else none

/-- The key that consists of sixteen equal bytes. -/
def constant (b : UInt8) : Key :=
  ⟨List.replicate 16 b, by simp⟩

instance : Inhabited Key := ⟨constant 0⟩

/-- The bytes of a text in UTF-8. -/
def utf8 (text : List Char) : Bytes :=
  text.flatMap String.utf8EncodeChar

/-- Reads a key written as hexadecimal digits, blanks around them aside. -/
def parse (text : String) : Except Failure Key :=
  match Hex.decode (utf8 (Text.trim text.toList)) with
  | .error why => .error (.configuration (.keyNotHex why))
  | .ok b =>
    match ofBytes? b with
    | none => .error (.configuration .keyLength)
    | some key => .ok key

end Key

end Framecast
