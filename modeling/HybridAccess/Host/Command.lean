/-
  HybridAccess — starting programs.

  A command names a program by a path, or by a name that is looked up in the
  directories of a search path. `Command.start` finds the program, or the
  reason why it cannot be started; nothing is run by that.
-/
import HybridAccess.Environment
import HybridAccess.Host.Files

namespace HybridAccess.Host

/-- A program with its arguments and its environment. -/
structure Command where
  program : String
  arguments : List String
  environment : Environment
deriving DecidableEq, Repr

namespace Command

/-! ## Words -/

/-- The words that are handed to the program: itself, its arguments and its environment. -/
def words (c : Command) : List String :=
  c.program :: c.arguments ++ c.environment.map fun kv => kv.1 ++ "=" ++ kv.2

/-- What is shown in place of a word that the operating system would cut off. -/
def cutOff : String := "<string-with-nul>"

/-- Whether a word has the character that ends it for the operating system. -/
def isTerminated (word : String) : Bool := Path.terminator ∈ word.toList

/-- A word as it is shown. -/
def shown (word : String) : String := if isTerminated word then cutOff else word

/-- The length in bytes of the longest word. -/
def longestWord : Nat := 131071

/-! ## Finding programs -/

/-- The name of the value that holds the search path. -/
def searchKey : String := "PATH"

/-- Where programs are looked up if there is no search path. -/
def defaultSearch : String := "/bin:/usr/bin"

/-- The program that a path leads to. -/
def programAt (files : Files) (path : String) : Except Failure Program := do
  match ← files.find path with
  | .program p => return p
  | _ => throw .permissionDenied

/-- A name as it is looked up. Of one that is too long, only as much counts as makes it too long. -/
def clipped (name : String) : String :=
  if Path.longestName < name.utf8ByteSize then "".pushn '_' (Path.longestName + 1) else name

/-- The path of a name in an entry of a search path. An empty entry is the place where relative paths
start. -/
def pathIn (entry name : String) : String :=
  if entry.isEmpty then name else entry ++ "/" ++ name

/-- Look up a name in directories. Where it is missing the next one is tried; a file that is no
program is remembered as the reason. -/
def lookUp (files : Files) (name : String) (reason : Failure) :
    List String → Except Failure Program
  | [] => .error reason
  | directory :: rest =>
    match programAt files (pathIn directory name) with
    | .ok p => .ok p
    | .error .permissionDenied => lookUp files name .permissionDenied rest
    | .error e =>
      if e = .notFound ∨ e = .notADirectory then
        lookUp files name (if reason = .permissionDenied then reason else e) rest
      else .error e

/-- The entries of a search path that are tried. One that is too long for a path is passed over: the
place where relative paths start is tried instead, unless it is the last one. -/
def tried : List String → List String
  | [] => []
  | [last] => if Path.longestPath < last.utf8ByteSize then [] else [last]
  | entry :: rest => (if Path.longestPath < entry.utf8ByteSize then "" else entry) :: tried rest

/-- The directories of a search path. -/
def directories (search : String) : List String :=
  tried ((Text.splitOn ':' search.toList).map String.ofList)

/-- The program with a path or a name. -/
def findProgram (files : Files) (search program : String) : Except Failure Program :=
  if '/' ∈ program.toList then programAt files program
  else if program.isEmpty then .error .notFound
  else lookUp files (clipped program) .notFound (directories search)

/-- The search path of a command. -/
def search (c : Command) : String :=
  (c.environment.lookup searchKey).getD defaultSearch

/-- Start a command. -/
def start (c : Command) (files : Files) : Except Failure Program := do
  if c.words.any isTerminated then throw .terminatedWord
  let p ← findProgram files c.search c.program
  if c.words.any fun w => longestWord < w.utf8ByteSize then throw .argumentsTooLong
  return p

end Command

end HybridAccess.Host
