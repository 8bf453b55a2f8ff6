/-
One end of a stream, from its configuration to its packets.

A node sets its connection up and registers the stores it is configured with.  While
it streams, only a unit that is too large is an error of its own; a closed connection
ends the stream, and any other failure is left to the peer's requests.
-/
import Framecast.Configuration.Basic
import Framecast.Connection.Send
import Framecast.Connection.Setup

namespace Framecast.Node

/-- A failure, and what was being done. -/
structure Trouble where
  context : String
  cause : Failure
  deriving DecidableEq, Repr

/-- A failure that speaks for itself. -/
def Trouble.ofFailure (e : Failure) : Trouble :=
  { context := e.message, cause := e }

/-- Registers stores one after the other. -/
def registerAll : List Configuration.Retention → Action Link Unit
  | [] => pure ()
  | r :: rest => do
    Link.register r.channel r.maxUnit r.units
    registerAll rest

/-- Opens the connection of a node. -/
def openConnection (role : Role) (config : Configuration) (n : Network) :
    Except Trouble Connection × Network :=
  match Connection.establish role config.meeting n with
  | (.error e, n) => (.error { context := "failed to connect as " ++ role.title, cause := e }, n)
  | (.ok connection, network) =>
    match registerAll config.retention { connection, network } with
    | (.error e, l) => (.error (.ofFailure e), l.network)
    | (.ok (), l) => (.ok l.connection, l.network)

/-- Sends a unit of the stream.  Returns false once the connection is closed. -/
def send (channel : Channel) (payload : Bytes) (id : Int32) (l : Link) :
    Except Trouble Bool × Link :=
  match Link.sendUnit channel payload id l with
  | (.ok (), l) => (.ok true, l)
  | (.error .closed, l) => (.ok false, l)
  | (.error e, l) =>
    match e with
    | .payloadTooLarge .. => (.error (.ofFailure e), l)
    | _ => (.ok true, l)

end Framecast.Node
