import Courier.CommandLine.Run
import Courier.Store.Snapshot

/-!
# The program

Reads files and the environment, and hands everything else to `CommandLine.run`.
-/

namespace Courier.CommandLine

/-- What stands at a path of the file system. -/
def readState (path : String) : IO FileState := do
  try
    return .holds (← IO.FS.readBinFile path).toList
  catch
    | .noFileOrDirectory .. => return .missing
    | _ => return .unreadable

/-- The directory of a path. -/
def parentOf (path : String) : String :=
  String.ofList ((path.toList.reverse.dropWhile (· ≠ '/')).drop 1).reverse

/-- Writes a new database at a path, whose directory is made if it is missing. -/
def createDatabase (path : String) : IO Database := do
  let parent := parentOf path
  if parent ≠ "" then IO.FS.createDirAll parent
  IO.FS.writeBinFile path ⟨Database.empty.encode.toArray⟩
  return .empty

/-- Opens the database at a path of the file system. -/
def openDatabase (path : String) : IO (Option Database) := do
  match ← readState path with
  | .holds octets => return (Database.decode octets).toOption
  | .unreadable => return none
  | .missing =>
    try
      return some (← createDatabase path)
    catch _ => return none

/-- The file system and the environment of the process. -/
def processHost : IO (Host IO) := do
  return { home := ← IO.getEnv "HOME", file := readState, database := openDatabase }

end Courier.CommandLine

/-- The program: its arguments make a call, whose output and exit code it passes on. -/
def main (args : List String) : IO UInt32 := do
  let outcome ← Courier.CommandLine.run (← Courier.CommandLine.processHost) args
  IO.print outcome.output
  return UInt32.ofNat outcome.exitCode
