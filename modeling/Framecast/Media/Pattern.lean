/-
A test pattern: frames and audio chunks without a camera.

A video frame is a bundle of three units, two of them small, sized so that the frame
rate times the frame size makes the bitrate, within limits.  All bytes of a unit
are the lowest byte of its number, so a viewer can tell the units apart.

The frames are written into one buffer after another frame, which grows and shrinks with
them but is not cleared.
-/
import Framecast.Media.FrameBundle

namespace Framecast

/-- A source of test frames. -/
structure Pattern where
  /-- Frames per second, at least one. -/
  fps : Nat
  /-- Bits per second. -/
  bitrate : Nat
  /-- The largest frame, at least `Pattern.minFrame`. -/
  maxFrame : Nat
  nextVideo : Int32 := 0
  nextAudio : Int32 := 0
  /-- What the last frame was written into. -/
  buffer : Bytes := []
  deriving DecidableEq, Repr, Inhabited

namespace Pattern

/-- The smallest frame. -/
def minFrame : Nat := 64

/-- The bytes of an audio chunk. -/
def chunkSize : Nat := 160

/-- The sizes of the two small units that lead every frame. -/
def leadSizes : List Nat := [24, 8]

/-- A source that has made nothing yet. -/
def start (fps bitrate maxFrame : Nat) : Pattern :=
  { fps := max fps 1, bitrate, maxFrame := max maxFrame minFrame }

/-- The size of the next frame. -/
def frameSize (p : Pattern) : Nat :=
  max minFrame (min (p.bitrate / 8 / p.fps) p.maxFrame)

/-- The byte that fills the unit with a number. -/
def fill (id : Int32) : UInt8 :=
  UInt8.ofNat id.toUInt32.toNat

/-- What a frame holds besides its last unit. -/
def overhead : Nat :=
  leadSizes.foldl (· + ·) 0 + 4 + 4 * (leadSizes.length + 1)

/-- The units of the frame with a number. -/
def units (p : Pattern) (id : Int32) : List Bytes :=
  (leadSizes ++ [max (p.frameSize - overhead) 1]).map fun n => List.replicate n (fill id)

/-- The buffer cut to a size, or filled up to it with zeros. -/
def resize (n : Nat) (buffer : Bytes) : Bytes :=
  buffer.take n ++ List.replicate (n - buffer.length) 0

/-- Makes the next video frame: its number and its bundle. -/
def video (p : Pattern) : Except Failure (Int32 × Bytes) × Pattern :=
  let id := p.nextVideo
  let units := p.units id
  let (written, buffer) := FrameBundle.write units (resize (FrameBundle.size units) p.buffer)
  (written.map fun n => (id, buffer.take n), { p with nextVideo := id + 1, buffer })

/-- Makes the next audio chunk. -/
def audio (p : Pattern) : (Int32 × Bytes) × Pattern :=
  let id := p.nextAudio
  ((id, List.replicate chunkSize (fill id)), { p with nextAudio := id + 1 })

end Pattern

end Framecast
