/-
Reading a configuration from a document.

Unknown keys are passed over, but their values are looked at and must be readable.  A
section may also be written as a list, which then gives the values of its keys in
their order; a missing value at the end is left out, and nobody looks at what follows
the last.  A word of a fixed set may be written as the only key of an empty table.
-/
import Framecast.Configuration.Input
import Framecast.Toml.Document

namespace Framecast.Configuration

open Framecast.Toml

/-- The entries of a table of which some keys are known, if the values of all others
are readable. -/
def known? (keys : List String) (es : Entries) : Option Entries :=
  if es.all fun (key, v) => keys.contains key || v.isReadable then some es else none

/-- The values of a section by key. -/
def section? (keys : List String) : Value → Option Entries
  | .table _ es => known? keys es
  -- a point in time counts as a table of which no key is known
  | .moment => some []
  | .list items => some (keys.zip items)
  | .tables rows => some (keys.zip rows)
  | _ => none

/-- Reads the value of a key that may be missing. -/
def optional? {α : Type} (read : Value → Option α) (es : Entries) (key : String) :
    Option (Option α) :=
  match es.get? key with
  | none => some none
  | some v => (read v).map some

/-- Reads the value of a key that must be there. -/
def required? {α : Type} (read : Value → Option α) (es : Entries) (key : String) : Option α :=
  (es.get? key).bind read

/-- A number below a bound. -/
def below? (bound : Nat) : Value → Option Nat
  | .integer n => if 0 ≤ n ∧ n < bound then some n.toNat else none
  | _ => none

/-- A number of 16 bits. -/
def word16? (v : Value) : Option UInt16 := (below? UInt16.size v).map UInt16.ofNat

/-- A number of 64 bits. -/
def word64? (v : Value) : Option Nat := below? UInt64.size v

/-- A text. -/
def text? : Value → Option String
  | .text s => some s
  | _ => none

/-- A truth value. -/
def truth? : Value → Option Bool
  | .truth b => some b
  | _ => none

/-- Whether a value has no contents. -/
def isEmptyValue : Value → Bool
  | .table _ [] => true
  | .list [] => true
  | _ => false

/-- A word of a fixed set. -/
def choice? {α : Type} (ofWord? : String → Option α) : Value → Option α
  | .text s => ofWord? s
  | .table _ [(s, v)] => if isEmptyValue v then ofWord? s else none
  | _ => none

/-- Reads how to find the peer. -/
def meeting? (v : Value) : Option MeetingInput := do
  let es ← section?
    ["port", "destination", "stun", "recv_timeout_ms", "connection_timeout_ms",
      "stun_timeout_ms", "key"] v
  let socket ← optional? word16? es "port"
  let host ← optional? text? es "destination"
  let rendezvous ← optional? text? es "stun"
  let readTimeout ← optional? word64? es "recv_timeout_ms"
  let setupTimeout ← optional? word64? es "connection_timeout_ms"
  let rendezvousTimeout ← optional? word64? es "stun_timeout_ms"
  let key ← optional? text? es "key"
  some { socket, host, rendezvous, readTimeout, setupTimeout, rendezvousTimeout, key }

/-- Reads what to keep of a channel. -/
def store? (v : Value) : Option Retention := do
  let es ← section? ["packet_type", "max_payload_size", "num_buffers"] v
  let channel ← required? (choice? Channel.ofWord?) es "packet_type"
  let maxUnit ← required? word64? es "max_payload_size"
  let units ← required? word64? es "num_buffers"
  some { channel, maxUnit, units }

/-- Reads the list of stores. -/
def stores? : Value → Option (List Retention)
  | .list items => items.mapM store?
  | .tables rows => rows.mapM store?
  | _ => none

/-- Reads how to receive. -/
def reception? (v : Value) : Option ReceptionInput := do
  let es ← section?
    ["ring_size", "frame_queue_capacity", "nack_interval_ms", "statistics_period_ms",
      "adapt_bitrate", "bitrate_policy"] v
  let ringSize ← optional? word64? es "ring_size"
  let queueCapacity ← optional? word64? es "frame_queue_capacity"
  let requestInterval ← optional? word64? es "nack_interval_ms"
  let period ← optional? word64? es "statistics_period_ms"
  let adapts ← optional? truth? es "adapt_bitrate"
  let policy ← optional? (choice? Policy.ofWord?) es "bitrate_policy"
  some { ringSize, queueCapacity, requestInterval, period, adapts, policy }

/-- Reads a configuration from the entries of a document. -/
def input? (es : Entries) : Option Input := do
  let es ← known? ["version", "connection", "nack_buffers", "receiver"] es
  let version ← optional? (below? UInt32.size) es "version"
  let meeting ← optional? meeting? es "connection"
  let retention ← optional? stores? es "nack_buffers"
  let reception ← optional? reception? es "receiver"
  some
    { version := version.getD 0
      meeting := meeting.getD {}
      retention
      reception := reception.getD {} }

/-- The configuration that a text comes to. -/
def ofText (text : String) : Except Failure Configuration :=
  match (parse? text.toList).bind input? with
  | none => .error (.configuration .unreadable)
  | some input => input.resolve

end Framecast.Configuration
