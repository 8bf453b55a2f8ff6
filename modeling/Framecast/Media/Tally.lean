/-
Counting what a viewer was shown.
-/
import Framecast.Media.FrameBundle
import Framecast.Reception.Receiver

namespace Framecast

/-- What came out of the frame queue. -/
structure Tally where
  videoFrames : Nat := 0
  /-- The units in the bundles of the video frames. -/
  videoUnits : Nat := 0
  audioChunks : Nat := 0
  bytes : Nat := 0
  /-- Video frames that are no bundle. -/
  malformed : Nat := 0
  deriving DecidableEq, Repr, Inhabited

/-- Counts a frame. -/
def Tally.record (t : Tally) (f : Frame) : Tally :=
  let t := { t with bytes := t.bytes + f.data.length }
  match f.channel with
  | .video =>
    match FrameBundle.extract f.data with
    | .ok units =>
      { t with videoFrames := t.videoFrames + 1, videoUnits := t.videoUnits + units.length }
    | .error _ => { t with malformed := t.malformed + 1 }
  | .audio => { t with audioChunks := t.audioChunks + 1 }
  | .message => t

end Framecast
