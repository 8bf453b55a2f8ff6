/-
The three channels of a connection.

Video frames and audio chunks are cut into fragments and put together again by the
peer; control messages always fit one packet.  Units are numbered per channel.
-/

namespace Framecast

/-- What a packet belongs to. -/
inductive Channel where
  | video
  | audio
  | message
  deriving DecidableEq, Repr, Inhabited

namespace Channel

/-- All channels, in the order of their tags. -/
def all : List Channel := [.video, .audio, .message]

/-- The byte that stands for a channel on the wire. -/
def tag : Channel → UInt8
  | video => 0
  | audio => 1
  | message => 2

/-- The channel a byte stands for. -/
def ofTag? : UInt8 → Option Channel
  | 0 => some video
  | 1 => some audio
  | 2 => some message
  | _ => none

/-- The word for a channel in configuration texts. -/
def word : Channel → String
  | video => "video"
  | audio => "audio"
  | message => "message"

/-- The channel a word stands for. -/
def ofWord? (s : String) : Option Channel :=
  all.find? fun c => c.word = s

/-- The name of a channel in error messages. -/
def title : Channel → String
  | video => "Video"
  | audio => "Audio"
  | message => "Message"

end Channel

end Framecast
