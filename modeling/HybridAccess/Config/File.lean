/-
  HybridAccess — configuration files.

  A configuration file is a TOML document. A file that is missing stands for
  the defaults. A configuration is checked when it is read and before it is
  written; an existing file is only replaced on demand, and the directories
  that hold a new one are made.
-/
import HybridAccess.Config.Document
import HybridAccess.Host.Files

namespace HybridAccess.Config.File

/-- The name of the file. -/
def name : String := "grecp-client.toml"

/-- The name of the directory that holds it. -/
def directoryName : String := "grecp-client"

/-- The home directory that is assumed if none is known. -/
def fallbackHome : String := "/root"

/-- Where the file is looked for unless it is named: in the directory for configurations, which is
below the home directory unless an absolute path is given for it. -/
def defaultPath (home configHome : Option String) : String :=
  let home := (home.filter (! ·.isEmpty)).getD fallbackHome
  let base := (configHome.filter Host.Path.isAbsolute).getD (Host.Path.join home ".config")
  Host.Path.join (Host.Path.join base directoryName) name

/-- Why a configuration is not read or not written. -/
inductive Problem
  /-- The file cannot be read. -/
  | unreadable (path : String) (reason : Host.Failure)
  /-- The file is no document with a configuration. -/
  | noConfiguration (path : String)
  /-- The configuration in the file cannot be used. -/
  | invalid (path : String) (reason : Invalid)
  /-- There is a file that must not be replaced. -/
  | occupied (path : String)
  /-- The configuration to be written cannot be used. -/
  | notWritten (reason : Invalid)
  /-- The directory for the file cannot be made. -/
  | noDirectory (directory : String) (reason : Host.Failure)
  /-- The file cannot be written. -/
  | unwritable (path : String) (reason : Host.Failure)
  /-- An amount left its range on the way. -/
  | halted (reason : Halt)
deriving DecidableEq, Repr

namespace Problem

/-- The text of a problem. -/
def message : Problem → String
  | unreadable path _ => "failed to read config: " ++ path
  | noConfiguration path => "failed to parse TOML: " ++ path
  | invalid path _ => "invalid config: " ++ path
  | occupied path => path ++ " already exists (pass --force to replace it)"
  | notWritten _ => "refusing to write an invalid config"
  | noDirectory directory _ => "failed to create directory " ++ directory
  | unwritable path _ => "failed to write " ++ path
  | halted reason => reason.message

/-- Why the configuration itself is refused, if that is the problem. -/
def invalid? : Problem → Option Invalid
  | invalid _ reason | notWritten reason => some reason
  | _ => none

/-- The text of the reason behind a problem. -/
def cause? : Problem → Option String
  | unreadable _ reason | noDirectory _ reason | unwritable _ reason => some reason.message
  | invalid _ reason | notWritten reason => some reason.message
  | noConfiguration _ | occupied _ | halted _ => none

/-- Why the client stops in the middle, if that is the problem. -/
def halt? : Problem → Option Halt
  | halted reason => some reason
  | _ => none

end Problem

/-- The configuration in a file that was read. -/
def ofContents (path : String) (contents : Bytes) : Except Problem Config :=
  match Bytes.toText? contents with
  | none => .error (.unreadable path .notText)
  | some text =>
    match ofToml text with
    | .ok c => .ok c
    | .error .malformed => .error (.noConfiguration path)
    | .error (.halted reason) => .error (.halted reason)

/-- The configuration of a file: what was found when it was read, none if there is no file. Then the
defaults are used. -/
def read (path : String) (found : Option (Except Host.Failure Bytes)) : Except Problem Config := do
  let c ← match found with
    | none => pure default
    | some (.ok contents) => ofContents path contents
    | some (.error reason) => throw (.unreadable path reason)
  (c.check.mapError (.invalid path)).map fun _ => c

/-- The document to be written to a file, which may be there already. -/
def document (path : String) (occupied force : Bool) (c : Config) : Except Problem String := do
  if occupied ∧ ! force then throw (.occupied path)
  c.check.mapError .notWritten
  c.toToml.mapError .halted

/-! ## On known files -/

/-- The configuration of a file. -/
def load (files : Host.Files) (path : String) : Except Problem Config :=
  read path (if files.contains path then some (files.read path) else none)

/-- Make the directory for a file, unless that is the one in which the path starts. -/
def makeParent (files : Host.Files) (path : String) : Except Problem Unit × Host.Files :=
  let directory := Host.Path.parent path
  if directory.isEmpty then (.ok (), files)
  else
    let (made, files) := files.makeDirectories directory
    (made.mapError (.noDirectory directory), files)

/-- Write a file, for which the directory is made first. -/
def write (files : Host.Files) (path : String) (contents : Bytes) :
    Except Problem Unit × Host.Files :=
  match makeParent files path with
  | (.error problem, files) => (.error problem, files)
  | (.ok _, files) =>
    match files.write path contents with
    | .ok files => (.ok (), files)
    | .error reason => (.error (.unwritable path reason), files)

/-- Write a configuration to a file. -/
def save (files : Host.Files) (path : String) (c : Config) (force : Bool) :
    Except Problem Unit × Host.Files :=
  match document path (files.contains path) force c with
  | .error problem => (.error problem, files)
  | .ok text => write files path (Bytes.ofText text)

end HybridAccess.Config.File
