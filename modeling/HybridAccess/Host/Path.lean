/-
  HybridAccess — paths.

  A path is a text in which slashes separate names. Several slashes count as
  one; a slash at the front starts at the root, and one at the end asks for a
  directory. `Path.parent` and `Path.join` work on the text alone.
-/
import HybridAccess.Host.Failure
import HybridAccess.Text.Lines

namespace HybridAccess.Host.Path

/-! ## Texts -/

/-- Whether a path starts at the root. -/
def isAbsolute (path : String) : Bool := path.toList.head? = some '/'

/-- Whether a path can only lead to a directory. -/
def endsInSlash (path : String) : Bool := path.toList.getLast? = some '/'

/-- A path that starts where another one leads to. An absolute path stays as it is. -/
def join (base path : String) : String :=
  if isAbsolute path ∨ base.isEmpty then path
  else if endsInSlash base then base ++ path
  else base ++ "/" ++ path

/-- A reversed path without the slashes and the dots for the same directory at its end. -/
def trimEnd : List Char → List Char
  | '/' :: cs => trimEnd cs
  | '.' :: '/' :: cs => trimEnd ('/' :: cs)
  | cs => cs

/-- The directory that holds what a path leads to, nothing if that is the root or the place where
relative paths start. -/
def parent (path : String) : String :=
  let above := (trimEnd path.toList.reverse).dropWhile (· ≠ '/')
  let trimmed := trimEnd above
  if trimmed.isEmpty then (if above.isEmpty then "" else "/") else String.ofList trimmed.reverse

/-- The names of a path. -/
def names (path : String) : List String :=
  ((Text.splitOn '/' path.toList).filter (! ·.isEmpty)).map String.ofList

/-- A path and at most `limit - 1` of the directories that hold it, each in front of the one above
it. The root and the place where relative paths start do not belong to them. -/
def upwards : (limit : Nat) → String → List String
  | 0, _ => []
  | limit + 1, path =>
    if path.isEmpty ∨ path = "/" then [] else path :: upwards limit (parent path)

/-- A path and all directories that hold it. Each of them has fewer names. -/
def withParents (path : String) : List String :=
  upwards ((names path).length + 1) path

/-! ## Limits -/

/-- The length in bytes of the longest name. -/
def longestName : Nat := 255

/-- The length in bytes of the longest path. -/
def longestPath : Nat := 4095

/-- The character that ends a path for the operating system. -/
def terminator : Char := '\x00'

/-- Refuse a text that is no path. -/
def check (path : String) : Except Failure Unit :=
  if terminator ∈ path.toList then .error .terminatedPath
  else if path.isEmpty then .error .notFound
  else if longestPath < path.utf8ByteSize then .error .nameTooLong
  else .ok ()

end HybridAccess.Host.Path
