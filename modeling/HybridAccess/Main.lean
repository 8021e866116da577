/-
  HybridAccess — the program.

  The only module that reads and writes files and prints: all decisions are
  made in `Client`.
-/
import HybridAccess.Client

namespace HybridAccess.Client

/-- Why the host refused something, as far as it says so. -/
def failureOf : IO.Error → Host.Failure
  | .noFileOrDirectory .. | .noSuchThing .. => .notFound
  | .permissionDenied .. => .permissionDenied
  | .alreadyExists .. => .alreadyExists
  | .inappropriateType .. => .isADirectory
  | _ => .notPermitted

/-- Read a file. -/
def readFile (path : String) : IO (Except Host.Failure Bytes) := do
  try
    return .ok (← IO.FS.readBinFile path).toList
  catch e => return .error (failureOf e)

/-- What is found when a configuration file is read. -/
def findFile (path : String) : IO (Option (Except Host.Failure Bytes)) := do
  match ← readFile path with
  | .error .notFound => return none
  | found => return some found

/-- Print a fault, and end without success. -/
def fail (fault : Fault) : IO UInt32 := do
  IO.eprint fault.text
  return fault.code

/-- Make the directory for a file, and write the file. -/
def writeFile (path text : String) : IO (Except Config.File.Problem Unit) := do
  let directory := Host.Path.parent path
  try
    if ! directory.isEmpty then IO.FS.createDirAll directory
  catch e => return .error (.noDirectory directory (failureOf e))
  try
    IO.FS.writeFile path text
    return .ok ()
  catch e => return .error (.unwritable path (failureOf e))

/-- Write a configuration file with the defaults. -/
def writeConfig (path : String) (force : Bool) : IO UInt32 := do
  match Config.File.document path (← findFile path).isSome force .default with
  | .error problem => fail (.config problem)
  | .ok text =>
    match ← writeFile path text with
    | .error problem => fail (.config problem)
    | .ok _ =>
      IO.println (writtenLine path)
      return 0

/-- Run the client as far as that is possible. -/
def run (path : String) : IO UInt32 := do
  match Config.File.read path (← findFile path) with
  | .error problem => fail (.config problem)
  | .ok c =>
    for e in logged c [loadedEntry path, configEntry c] do
      IO.println e.line
    fail (obstacle c (← readFile tablePath))

/-- Carry out a command line. -/
def carryOut (words : List String) : IO UInt32 := do
  match CommandLine.Invocation.read (programName :: words) with
  | .error stop =>
    let (fine, lines) := stopped stop
    for line in lines do
      if fine then IO.println line else IO.eprintln line
    return if fine then 0 else 2
  | .ok invocation =>
    let path := invocation.config.getD
      (Config.File.defaultPath (← IO.getEnv "HOME") (← IO.getEnv "XDG_CONFIG_HOME"))
    match invocation.action.getD .run with
    | .printPath =>
      IO.println path
      return 0
    | .writeConfig force => writeConfig path force
    | .run => run path

end HybridAccess.Client

/-- The program. -/
def main (words : List String) : IO UInt32 :=
  HybridAccess.Client.carryOut words
