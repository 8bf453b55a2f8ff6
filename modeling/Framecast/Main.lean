/-
The command line program: checks a command line and the configuration it names, and
says what a node with this configuration would do.
-/
import Framecast.Configuration.Document
import Framecast.Node.CommandLine

namespace Framecast.Main

/-- The lines shown when help is asked for. -/
def helpText : String :=
  "Usage: node --config <CONFIG> [--duration-secs <N>] <serve|connect|loopback>"

/-- What a command does, in words. -/
def describe : CommandLine.Command → String
  | .serve fps => s!"host a stream of {fps} frames per second"
  | .connect => "view a stream"
  | .loopback fps => s!"host and view a stream of {fps} frames per second"

/-- What a node would do. -/
def report (invocation : CommandLine.Invocation) (config : Configuration) : String :=
  let host :=
    match config.meeting.host with
    | some ip => ip.render
    | none => "any address"
  let span :=
    if invocation.duration = 0 then "until interrupted"
    else "for " ++ toString invocation.duration ++ " seconds"
  describe invocation.command ++ " at " ++ host ++ ":" ++
    toString config.meeting.socket.toNat ++ " " ++ span

end Framecast.Main

open Framecast in
/-- Runs the program. -/
def main (args : List String) : IO UInt32 := do
  match CommandLine.parse args with
  | .error .help =>
    IO.println Main.helpText
    return 0
  | .error .usage =>
    IO.eprintln Main.helpText
    return 2
  | .ok invocation =>
    let text ← IO.FS.readFile invocation.config
    match Configuration.ofText text with
    | .error e =>
      IO.eprintln e.message
      return 1
    | .ok config =>
      IO.println (Main.report invocation config)
      return 0
