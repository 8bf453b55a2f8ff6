/-
The receiver of a connection.

It reads packets one after the other.  Control messages are obeyed or passed on,
media fragments go to the assembly of their channel, and whole units into a queue for
whoever shows them; a unit that finds the queue full is lost.  After every read it
asks for missing fragments if it is time to, and at the end of a period it reports
what it measured and, if it adapts, asks the peer for other rates.

Every unit given up by an assembly, and every unit lost at the queue, is counted as
skipped exactly once.
-/
import Framecast.Assembly.Receive
import Framecast.Assembly.Request
import Framecast.Configuration.Basic
import Framecast.Connection.Receive
import Framecast.Connection.Send
import Framecast.Rate.Controller
import Framecast.Rate.Meter
import Framecast.Reception.BoundedQueue

namespace Framecast

/-- A whole unit of a media channel. -/
structure Frame where
  channel : Channel
  id : Int32
  data : Bytes
  deriving DecidableEq, Repr, Inhabited

/-- What a receiver tells its program. -/
inductive Notice where
  /-- A message whose meaning is the business of the program. -/
  | message (m : Control)
  /-- Settings the peer asks for, or that it was asked for. -/
  | settings (s : Settings)
  /-- The measurements of a period. -/
  | statistics (s : Statistics)
  deriving DecidableEq, Repr, Inhabited

/-- A receiver at work. -/
structure Receiver where
  link : Link
  reception : Configuration.Reception
  video : Assembly
  audio : Assembly
  meter : Meter
  controller : Controller
  /-- The last time missing fragments were asked for. -/
  lastRound : Int
  /-- How many units given up by the assemblies were counted. -/
  skippedSeen : Nat := 0
  frames : BoundedQueue Frame
  notices : BoundedQueue Notice

namespace Receiver

/-- How many notices wait at most. -/
def noticeCapacity : Nat := 256

/-- The pause after a failed read. -/
def errorPause : Nat := 5 * Time.millisecond

/-- A receiver that starts now. -/
def start (link : Link) (reception : Configuration.Reception) : Receiver :=
  let limits : Assembly.Limits := { size := reception.ringSize }
  { link
    reception
    video := .empty .video limits
    audio := .empty .audio limits
    meter := { period := reception.period, started := link.network.now }
    controller := .ofPolicy reception.policy
    lastRound := link.network.now
    frames := .empty reception.queueCapacity
    notices := .empty noticeCapacity }

/-- Tells the program, unless too much waits already. -/
def notify (r : Receiver) (notice : Notice) : Receiver :=
  match r.notices.enqueue? notice with
  | some notices => { r with notices }
  | none => r

/-- Obeys a control message, or passes it on. -/
def obey (r : Receiver) : Control → Receiver
  | .missing channel id index => { r with link := (Link.resend channel id index r.link).2 }
  | .settings s =>
    let link :=
      match r.link.connection.role with
      | .server => (Link.applySettings s.burst s.fec r.link).2
      | .client => r.link
    { r with link }.notify (.settings s)
  | m => r.notify (.message m)

/-- The assembly that takes the fragments of a media channel. -/
def assembly (r : Receiver) : Channel → Assembly
  | .video => r.video
  | _ => r.audio

/-- Replaces the assembly of a media channel. -/
def setAssembly (r : Receiver) (channel : Channel) (a : Assembly) : Receiver :=
  match channel with
  | .video => { r with video := a }
  | _ => { r with audio := a }

/-- Takes a fragment in.  Returns the contents of its unit if that is whole now. -/
def assemble (a : Assembly) (p : Packet) : Option Bytes × Assembly :=
  match a.receive p with
  | (.completed, a) =>
    match a.take? p.id with
    | some (data, a) => (some data, a)
    | none => (none, a)
  | (_, a) => (none, a)

/-- Counts the units that the assemblies gave up since the last time. -/
def countSkipped (r : Receiver) : Receiver :=
  let skipped := r.video.counts.skipped + r.audio.counts.skipped
  if skipped > r.skippedSeen then
    { r with meter := r.meter.countSkipped (skipped - r.skippedSeen), skippedSeen := skipped }
  else r

/-- Hands a frame on, or loses it. -/
def deliver (r : Receiver) (frame : Frame) : Receiver :=
  match r.frames.enqueue? frame with
  | some frames => { r with frames, meter := r.meter.countRendered }
  | none => { r with meter := r.meter.countSkipped 1 }

/-- Takes a media packet in. -/
def takeMedia (r : Receiver) (p : Packet) : Receiver :=
  let r := { r with meter := r.meter.countPacket p.payload.length }
  let (whole, a) := assemble (r.assembly p.channel) p
  let r := (r.setAssembly p.channel a).countSkipped
  match whole with
  | some data => r.deliver { channel := p.channel, id := p.id, data }
  | none => r

/-- Takes a packet in. -/
def takePacket (r : Receiver) (p : Packet) : Receiver :=
  match p.channel with
  | .message =>
    match Control.decode? p.payload with
    | some m => r.obey m
    | none => r
  | _ => r.takeMedia p

/-- Asks the peer for fragments.  Returns how many requests went out. -/
def ask (channel : Channel) : List Assembly.Wanted → Link → Nat × Link
  | [], l => (0, l)
  | (id, index) :: rest, l =>
    match Link.sendControl (.missing channel id index) l with
    | (.ok (), l) =>
      let (sent, l) := ask channel rest l
      (sent + 1, l)
    | (.error _, l) => ask channel rest l

/-- One round of requests for missing fragments, video first. -/
def requestMissing (r : Receiver) (now : Int) : Receiver :=
  let (wanted, video) := r.video.request now
  let (asked, link) := ask .video wanted r.link
  let (wanted, audio) := r.audio.request now
  let (askedMore, link) := ask .audio wanted link
  { r with link, video, audio, meter := r.meter.countRequests (asked + askedMore) }

/-- Asks for missing fragments if it is time to. -/
def checkMissing (r : Receiver) (now : Int) : Receiver :=
  if r.reception.requestInterval ≤ Time.elapsed r.lastRound now then
    { r with lastRound := now }.requestMissing now
  else r

/-- Asks the peer for the settings that the measurements call for. -/
def adapt (r : Receiver) (s : Statistics) : Receiver :=
  let (wanted, controller) := r.controller.update s
  let link := (Link.sendControl (.settings wanted) r.link).2
  { r with controller, link }.notify (.settings wanted)

/-- Closes the period if it is over. -/
def checkPeriod (r : Receiver) (now : Int) : Receiver :=
  match r.meter.close? now with
  | none => r
  | some (s, meter) =>
    let r := { r with meter }.notify (.statistics s)
    if r.reception.adapts then r.adapt s else r

/-- What is done after every read. -/
def tick (r : Receiver) (now : Int) : Receiver :=
  (r.checkMissing now).checkPeriod now

/-- Reads once and takes in what came. -/
def readOnce (r : Receiver) : Receiver :=
  match Link.readPacket r.link with
  | (.ok (some p), link) => { r with link := link.release }.takePacket p
  | (.ok none, link) => { r with link }
  | (.error _, link) => { r with link := { link with network := link.network.sleep errorPause } }

/-- One turn: a read, and what follows it. -/
def turn (r : Receiver) : Receiver :=
  let r := r.readOnce
  r.tick r.link.network.now

/-- Several turns. -/
def turns : (n : Nat) → Receiver → Receiver
  | 0, r => r
  | n + 1, r => turns n r.turn

/-- The turn during which the connection is closed: the read ends at once and without a
datagram, and what follows it finds the connection closed. -/
def lastTurn (r : Receiver) : Receiver :=
  let link := r.link.close.count fun c => { c with readTimeouts := c.readTimeouts + 1 }
  { r with link }.tick link.network.now

/-- Reads all arrivals of the script, one in each turn; then the connection is closed.
On a connection that is closed already nothing happens. -/
def run (r : Receiver) : Receiver :=
  if r.link.isClosed then r else (turns r.link.network.inbound.length r).lastTurn

end Receiver

end Framecast
