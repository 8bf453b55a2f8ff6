/-
The command line of a node.

    node  -c FILE  [--duration-secs N]  serve [--fps N] | connect | loopback [--fps N]

Options may be written as `--name value` or `--name=value`, short ones also as `-cFILE`
and `-c=FILE`, and each at most once.  The options of a command come after its name.
A word that starts with a dash is never the value of the option before it.

A value that stands in a word of its own is looked at only when the next option comes
or the words end; so a request for help between the two still gets help.
-/

namespace Framecast.CommandLine

/-- What a node is to do. -/
inductive Command where
  /-- Host a stream. -/
  | serve (fps : Nat)
  /-- View a stream. -/
  | connect
  /-- Host and view at once. -/
  | loopback (fps : Nat)
  deriving DecidableEq, Repr, Inhabited

/-- A command line that was understood. -/
structure Invocation where
  /-- The configuration file. -/
  config : String
  /-- How long to run, in seconds; zero means without end. -/
  duration : Nat
  command : Command
  deriving DecidableEq, Repr, Inhabited

/-- Why there is nothing to do. -/
inductive Refusal where
  | help
  | usage
  deriving DecidableEq, Repr, Inhabited

/-- An option that takes a value. -/
structure Switch where
  /-- The long name, without the dashes. -/
  name : String
  short : Option Char := none
  /-- Which values it takes. -/
  accepts : String → Bool

/-- The number of a text of decimal digits. -/
def digits? (s : List Char) : Option Nat :=
  if s.isEmpty ∨ ¬ s.all Char.isDigit then none
  else some (s.foldl (fun n c => n * 10 + (c.toNat - '0'.toNat)) 0)

/-- A number with an optional plus sign, below a bound. -/
def natural? (bound : Nat) (s : String) : Option Nat :=
  let digits := match s.toList with | '+' :: s => s | s => s
  (digits? digits).filter (· < bound)

/-- A number with an optional sign that is not below zero, and below a bound. -/
def signed? (bound : Nat) (s : String) : Option Nat :=
  match s.toList with
  | '-' :: s => (digits? s).filter (· = 0)
  | _ => natural? bound s

/-- The seconds that a text spells. -/
def seconds? (s : String) : Option Nat := natural? UInt64.size s

/-- The frames per second that a text spells. -/
def rate? (s : String) : Option Nat := signed? UInt32.size s

/-- The options in front of a command. -/
def mainSwitches : List Switch :=
  [{ name := "config", short := some 'c', accepts := fun s => !s.isEmpty },
   { name := "duration-secs", accepts := fun s => (seconds? s).isSome }]

/-- The options of a command that makes a stream. -/
def streamSwitches : List Switch :=
  [{ name := "fps", accepts := fun s => (rate? s).isSome }]

/-- The words for the commands. -/
def commandNames : List String := ["serve", "connect", "loopback"]

/-- Options so far: those whose values were looked at, and the last one, whose value
may still be missing. -/
structure Given where
  values : List (String × String) := []
  pending : Option (Switch × Option String) := none

namespace Given

/-- The value of an option. -/
def get? (g : Given) (name : String) : Option String :=
  (g.values.find? fun v => v.1 = name).map Prod.snd

/-- Adds an option with its value, once. -/
def add (g : Given) (s : Switch) (value : String) : Except Refusal Given :=
  if (g.get? s.name).isSome ∨ ¬ s.accepts value then .error .usage
  else .ok { g with values := (s.name, value) :: g.values }

/-- Looks at the last option. -/
def settle (g : Given) : Except Refusal Given :=
  match g.pending with
  | none => .ok g
  | some (_, none) => .error .usage
  | some (s, some value) => { g with pending := none }.add s value

/-- Whether the last option lacks its value. -/
def isWaiting (g : Given) : Bool :=
  match g.pending with
  | some (_, none) => true
  | _ => false

/-- Takes an option in, with its value if that is part of the word. -/
def take (g : Given) (s : Switch) (attached : Option String) : Except Refusal Given := do
  let g ← g.settle
  match attached with
  | some value => g.add s value
  | none => .ok { g with pending := some (s, none) }

/-- A request for help is granted unless the option before it is wrong. -/
def help (g : Given) : Refusal :=
  match g.settle with
  | .ok _ => .help
  | .error e => e

end Given

/-- The two parts of a text around the first equals sign, if there is one. -/
def splitEquals (s : List Char) : List Char × Option (List Char) :=
  match s.dropWhile (· ≠ '=') with
  | [] => (s, none)
  | _ :: value => (s.takeWhile (· ≠ '='), some value)

/-- Takes a word in that starts with two dashes. -/
def takeLong (switches : List Switch) (g : Given) (word : List Char) : Except Refusal Given :=
  let (name, value) := splitEquals word
  let name := String.ofList name
  if name = "help" then .error (if value.isSome then .usage else g.help)
  else
    match switches.find? fun s => s.name = name with
    | none => .error .usage
    | some s => g.take s (value.map String.ofList)

/-- Takes a word in that starts with one dash. -/
def takeShort (switches : List Switch) (g : Given) (letter : Char) (more : List Char) :
    Except Refusal Given :=
  if letter = 'h' then .error g.help
  else
    match switches.find? fun s => s.short = some letter with
    | none => .error .usage
    | some s =>
      match more with
      | [] => g.take s none
      | '=' :: value => g.take s (some (String.ofList value))
      | value => g.take s (some (String.ofList value))

/-- Takes words in up to the name of a command.  Returns the options, and the command
with the words behind it. -/
def takeOptions (switches : List Switch) (commands : List String) :
    List String → Given → Except Refusal (Given × Option (String × List String))
  | [], g => .ok (g, none)
  | word :: rest, g =>
    if ¬ g.isWaiting ∧ word ∈ commands then .ok (g, some (word, rest))
    else
      match word.toList with
      | ['-', '-'] => if rest.isEmpty then .ok (g, none) else .error .usage
      | '-' :: '-' :: name => do takeOptions switches commands rest (← takeLong switches g name)
      | '-' :: letter :: more => do
        takeOptions switches commands rest (← takeShort switches g letter more)
      | _ =>
        match g.pending with
        | some (s, none) =>
          takeOptions switches commands rest { g with pending := some (s, some word) }
        | _ => .error .usage

/-- What follows the word that asks for help. -/
def helpOn : List String → Refusal
  | [] => .help
  | [command] => if command ∈ "help" :: commandNames then .help else .usage
  | _ => .usage

/-- Reads the options of a command. -/
def takeCommand (name : String) (words : List String) : Except Refusal Command := do
  let switches := if name = "connect" then [] else streamSwitches
  let (g, _) ← takeOptions switches [] words {}
  let g ← g.settle
  let fps := ((g.get? "fps").bind rate?).getD 60
  match name with
  | "serve" => .ok (.serve fps)
  | "connect" => .ok .connect
  | _ => .ok (.loopback fps)

/-- Reads the words behind the name of the program. -/
def parse (words : List String) : Except Refusal Invocation := do
  let (g, command) ← takeOptions mainSwitches ("help" :: commandNames) words {}
  match command with
  | none => .error .usage
  | some ("help", rest) => .error (helpOn rest)
  | some (name, rest) =>
    let command ← takeCommand name rest
    let g ← g.settle
    match g.get? "config" with
    | none => .error .usage
    | some config =>
      .ok
        { config
          duration := ((g.get? "duration-secs").bind seconds?).getD 30
          command }

end Framecast.CommandLine
