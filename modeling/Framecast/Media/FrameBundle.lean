/-
Bundles: the units of one encoded frame in a single buffer.

    count  size 0 ... size (count-1)  unit 0 ... unit (count-1)
      4      4           4

All numbers are little-endian.  Bytes after the last unit are not part of the bundle
and do no harm.
-/
import Framecast.Bytes.Field
import Framecast.Failure

namespace Framecast.FrameBundle

/-- Numbers that do not fit four bytes cannot be written into a bundle. -/
def fieldLimit : Nat := UInt32.size

/-- The bytes a bundle of these units takes. -/
def size (units : List Bytes) : Nat :=
  4 + 4 * units.length + units.flatten.length

/-- The bundle of these units. -/
def encode (units : List Bytes) : Bytes :=
  Field.digitsLow 4 units.length ++
    (units.flatMap fun u => Field.digitsLow 4 u.length) ++ units.flatten

/-- Writes a bundle into the front of a buffer.  Returns the number of bytes written
and the buffer afterwards, which is the one given when the bundle does not fit. -/
def write (units : List Bytes) (buffer : Bytes) : Except Failure Nat × Bytes :=
  if size units > buffer.length then
    (.error (.packetTooLarge (size units) buffer.length), buffer)
  else if units.length ≥ fieldLimit ∨ ∃ u ∈ units, u.length ≥ fieldLimit then
    (.error (.malformed .bundleLength), buffer)
  else
    (.ok (size units), encode units ++ buffer.drop (size units))

/-- Reads `n` sizes and returns what follows them. -/
def takeSizes? : Nat → Bytes → Option (List Nat × Bytes)
  | 0, b => some ([], b)
  | n + 1, b => do
    let (size, b) ← Field.takeLow? 4 b
    let (sizes, b) ← takeSizes? n b
    some (size :: sizes, b)

/-- Cuts units of the given sizes off the front of `b`. -/
def cut? : List Nat → Bytes → Option (List Bytes)
  | [], _ => some []
  | size :: sizes, b =>
    if size ≤ b.length then (cut? sizes (b.drop size)).map (b.take size :: ·) else none

/-- The units of a bundle. -/
def extract (b : Bytes) : Except Failure (List Bytes) :=
  match Field.takeLow? 4 b with
  | none => .error (.malformed .bundleHeader)
  | some (count, rest) =>
    if count > rest.length / 4 then .error (.malformed .bundleHeader) else
    match takeSizes? count rest with
    | none => .error (.malformed .bundleHeader)
    | some (sizes, rest) =>
      match cut? sizes rest with
      | none => .error (.malformed .bundleUnit)
      | some units => .ok units

end Framecast.FrameBundle
