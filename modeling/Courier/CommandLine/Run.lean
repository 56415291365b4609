import Courier.CommandLine.Arguments
import Courier.CommandLine.Report
import Courier.Config.File
import Courier.Path

/-!
# Running a command

`run` does what the arguments ask for, given access to files and databases (`Host`), and tells what
is printed and how the program ends (`Outcome`). The configuration is read first, whatever the
command; a database is opened only by the commands that list something.
-/

namespace Courier.CommandLine

/-- What stands at a path. -/
inductive FileState where
  | missing
  /-- Something that cannot be read as a file. -/
  | unreadable
  | holds (octets : Octets)

/-- What the program finds around it. -/
structure Host (m : Type → Type) where
  home : Option String
  file : String → m FileState
  /-- Opens the database at a path, a new one if there is none; nothing if it cannot be opened. -/
  database : String → m (Option Database)

/-- How a call of the program ends. -/
structure Outcome where
  exitCode : Nat
  output : String
  deriving DecidableEq, Repr

namespace Outcome

/-- The end of a call that went well. -/
def success (output : String) : Outcome := ⟨0, output⟩

/-- The end of a call that failed on the way. -/
def failure : Outcome := ⟨1, ""⟩

/-- The end of a call whose arguments make no sense. -/
def misuse : Outcome := ⟨2, ""⟩

/-- The end of a call that is successful if it has something to print. -/
def ofOption : Option String → Outcome
  | none => failure
  | some output => success output

end Outcome

/-- The configuration that a file holds, or the default one. -/
def configOf? : FileState → Option Config
  | .unreadable => none
  | .missing => (Config.load none).toOption
  | .holds octets => (Config.load (some octets)).toOption

/-- The output of a query on a database. -/
def queryOutput (db : Option Database) (query : StoreM (List String)) : Outcome :=
  match db with
  | none => .failure
  | some db => .ofOption ((query.attempt (.reliable db)).1.toOption.map unlines)

/-- One command under a configuration. -/
def perform {m : Type → Type} [Monad m] (host : Host m) (c : Config) (command : Command) :
    m Outcome := do
  match command with
  | .config => return .ofOption c.render?
  | .pollInterval idle =>
    let interval := c.timing.interval (idle.map Duration.ofSeconds)
    return .ofOption (interval.map fun d => unlines [secondsText d])
  | .links identity =>
    return queryOutput (← host.database (expandTilde host.home c.database))
      (destinationLines identity)
  | .handshakes =>
    return queryOutput (← host.database (expandTilde host.home c.database)) handshakeLines

/-- A call of the program. -/
def run {m : Type → Type} [Monad m] (host : Host m) (args : List String) : m Outcome := do
  match Invocation.parse? args with
  | none => return .misuse
  | some i =>
    match configOf? (← host.file (expandTilde host.home i.configPath)) with
    | none => return .failure
    | some c => perform host c i.command

end Courier.CommandLine
