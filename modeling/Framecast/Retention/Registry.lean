/-
The stores of a connection, at most one per channel.
-/
import Framecast.Failure
import Framecast.Retention.Store

namespace Framecast

/-- The stores of a connection. -/
structure Stores where
  video : Option Store := none
  audio : Option Store := none
  message : Option Store := none
  deriving Repr, Inhabited

namespace Stores

/-- The store of a channel. -/
def get? (s : Stores) : Channel → Option Store
  | .video => s.video
  | .audio => s.audio
  | .message => s.message

/-- Replaces the store of a channel. -/
def set (s : Stores) (channel : Channel) (store : Store) : Stores :=
  match channel with
  | .video => { s with video := some store }
  | .audio => { s with audio := some store }
  | .message => { s with message := some store }

/-- Gives a channel a store, unless it has one. -/
def register (s : Stores) (channel : Channel) (maxUnit units : Nat) :
    Except Failure Stores :=
  match s.get? channel with
  | some _ => .error (.alreadyRetained channel)
  | none =>
    match Store.make? maxUnit units with
    | none => .error .tableTooLarge
    | some store => .ok (s.set channel store)

/-- Keeps a fragment in the store of a channel, if it has one.  Returns whether there
was a place for it. -/
def insert (s : Stores) (channel : Channel) (p : Packet) : Option Bool × Stores :=
  match s.get? channel with
  | none => (none, s)
  | some store =>
    let (stored, store) := store.insert p
    (some stored, s.set channel store)

/-- Looks up a fragment that is asked for. -/
def find (s : Stores) (channel : Channel) (id : Int32) (index : UInt16) :
    Except Failure Packet × Stores :=
  match s.get? channel with
  | none => (.error (.notRetained channel), s)
  | some store =>
    match store.find? id index with
    | (none, store) => (.error (.forgotten channel id index), s.set channel store)
    | (some p, store) => (.ok p, s.set channel store)

end Stores

end Framecast
