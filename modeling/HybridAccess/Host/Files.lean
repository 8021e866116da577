/-
  HybridAccess — the files of the host.

  `Files` is a tree of directories with files, programs, devices and links in
  them, and the directory in which relative paths start. A path is followed
  name by name (`walk`); only directories may stand on the way. An operation
  that makes or changes something follows the path to the directory that holds
  it (`place`) and puts it there (`put`).
-/
import HybridAccess.Host.Path
import HybridAccess.Host.Program

namespace HybridAccess.Host

/-! ## Trees -/

/-- What stands behind the name of a device. None of them has anything to read. -/
inductive Device
  /-- Takes whatever is written to it. -/
  | sink
  /-- Has no room for anything. -/
  | full
  /-- There is only the name. -/
  | missing
deriving DecidableEq, Repr

/-- Write to a device. -/
def Device.write : Device → Bytes → Except Failure Unit
  | sink, _ | full, [] => .ok ()
  | full, _ :: _ => .error .noSpace
  | missing, _ => .error .noDevice

/-- Read from a device. -/
def Device.read : Device → Except Failure Bytes
  | sink | full => .ok []
  | missing => .error .noDevice

/-- What a directory holds under a name. -/
inductive Node
  | file (contents : Bytes)
  | program (does : Program)
  | device (behind : Device)
  /-- Leads to a directory, given by the names from the root. -/
  | link (target : List String)
  | directory (entries : List (String × Node))

/-- What a directory holds, each thing under its name. -/
abbrev Entries := List (String × Node)

/-- Put something under a name, in place of what is there. -/
def Entries.set (name : String) (n : Node) : Entries → Entries
  | [] => [(name, n)]
  | (k, old) :: rest => if k = name then (k, n) :: rest else (k, old) :: Entries.set name n rest

namespace Entries

theorem lookup_cons (name k : String) (n : Node) (entries : Entries) :
    List.lookup k ((name, n) :: entries) = if k = name then some n else entries.lookup k := by
  rw [List.lookup_cons]
  by_cases h : k = name
  · rw [if_pos h, beq_iff_eq.2 h]
  · rw [if_neg h, beq_eq_false_iff_ne.2 h]

theorem lookup_set (name k : String) (n : Node) (entries : Entries) :
    (set name n entries).lookup k = if k = name then some n else entries.lookup k := by
  induction entries with
  | nil => rw [set, lookup_cons]
  | cons e rest ih =>
    obtain ⟨k', old⟩ := e
    rw [set]
    split
    · next h =>
      subst h
      rw [lookup_cons, lookup_cons]
      split <;> rfl
    · next h =>
      rw [lookup_cons, lookup_cons, ih]
      split
      · next hk => rw [if_neg fun h' => h (hk.symm.trans h')]
      · rfl

theorem lookup_filter (name k : String) (entries : Entries) :
    List.lookup k (entries.filter (·.1 ≠ name)) =
      if k = name then none else entries.lookup k := by
  induction entries with
  | nil => exact (ite_self none).symm
  | cons e rest ih =>
    obtain ⟨k', old⟩ := e
    by_cases h : k' = name
    · subst h
      rw [List.filter_cons_of_neg (by simp), ih, lookup_cons]
      split <;> rfl
    · rw [List.filter_cons_of_pos (by simpa using h), lookup_cons, lookup_cons, ih]
      split
      · next hk => rw [if_neg fun h' => h (hk.symm.trans h')]
      · rfl

end Entries

/-- The files of a host. -/
structure Files where
  /-- What the root holds. -/
  top : Entries
  /-- The names from the root to the directory in which relative paths start. -/
  here : List String

namespace Files

/-! ## Walking -/

/-- A place in the tree: what was passed on the way from the root, the place itself in front. -/
abbrev Spot := List (String × Node)

/-- What stands at a place. -/
def node (files : Files) : Spot → Node
  | [] => .directory files.top
  | (_, n) :: _ => n

/-- What the directory at a place holds. -/
def entries? (files : Files) (spot : Spot) : Option Entries :=
  match files.node spot with
  | .directory entries => some entries
  | _ => none

/-- The place with the given names from the root, as far as they lead. -/
def spot (files : Files) (names : List String) : Spot :=
  names.foldl (fun s name =>
    match (files.entries? s).bind (·.lookup name) with
    | some n => (name, n) :: s
    | none => s) []

/-- Go one name further. -/
def step (files : Files) (s : Spot) (name : String) : Except Failure Spot :=
  match files.entries? s with
  | none => .error .notADirectory
  | some entries =>
    if name = "." then .ok s
    else if name = ".." then .ok s.tail
    else if Path.longestName < name.utf8ByteSize then .error .nameTooLong
    else
      match entries.lookup name with
      | none => .error .notFound
      | some (.link target) => .ok (files.spot target)
      | some n => .ok ((name, n) :: s)

/-- Follow names. -/
def walk (files : Files) (s : Spot) (names : List String) : Except Failure Spot :=
  names.foldlM files.step s

/-- The place where a path starts. -/
def start (files : Files) (path : String) : Spot :=
  if Path.isAbsolute path then [] else files.spot files.here

/-- What a path leads to. -/
def find (files : Files) (path : String) : Except Failure Node := do
  Path.check path
  let s ← files.walk (files.start path) (Path.names path)
  if Path.endsInSlash path ∧ files.entries? s = none then throw .notADirectory
  return files.node s

/-- Whether a path leads to something. -/
def contains (files : Files) (path : String) : Bool :=
  (files.find path).toBool

/-- Whether a path leads to a directory. -/
def isDirectory (files : Files) (path : String) : Bool :=
  match files.find path with
  | .ok (.directory _) => true
  | _ => false

/-! ## Reading -/

/-- Read a file. What a program holds is no text, which is all that is known of it. -/
def read (files : Files) (path : String) : Except Failure Bytes := do
  match ← files.find path with
  | .file contents => return contents
  | .device d => d.read
  | .program _ => return [0xFF]
  | .link _ | .directory _ => throw .isADirectory

/-! ## Changing -/

/-- The tree after a change of what the directory at a place holds. -/
def rebuild (files : Files) : Spot → Entries → Entries
  | [], entries => entries
  | (name, _) :: above, entries =>
    files.rebuild above
      (Entries.set name (.directory entries) ((files.entries? above).getD []))

/-- Put something under a name into the directory at a place. -/
def put (files : Files) (s : Spot) (entries : Entries) (name : String) (n : Node) : Files :=
  { files with top := files.rebuild s (Entries.set name n entries) }

/-- Where a path leads to: the directory that holds it, what that directory holds, and the last
name. There is none at the root, and a dot is none. -/
def place (files : Files) (path : String) :
    Except Failure (Spot × Entries × Option String) := do
  Path.check path
  let names := Path.names path
  let s ← files.walk (files.start path) names.dropLast
  match files.entries? s with
  | none => throw .notADirectory
  | some entries => return (s, entries, names.getLast?.filter fun n => n ≠ "." && n ≠ "..")

/-- What a directory holds under a name that is not too long. -/
def look (entries : Entries) (name : String) : Except Failure (Option Node) :=
  if Path.longestName < name.utf8ByteSize then .error .nameTooLong else .ok (entries.lookup name)

/-- Write a file, in place of the one that is there if there is one. A new file has to be `fresh`:
nothing may be there. -/
def writeFile (fresh : Bool) (files : Files) (path : String) (contents : Bytes) :
    Except Failure Files := do
  match ← files.place path with
  | (_, _, none) => throw (if fresh then .alreadyExists else .isADirectory)
  | (s, entries, some name) =>
    if Path.endsInSlash path then throw .isADirectory
    match ← look entries name with
    | none => return files.put s entries name (.file contents)
    | some n =>
      if fresh then throw .alreadyExists
      match n with
      | .directory _ | .link _ => throw .isADirectory
      | .device d => return (← (d.write contents).map fun _ => files)
      | .file _ | .program _ => return files.put s entries name (.file contents)

/-- Write a file, in place of the one that is there if there is one. -/
def write : Files → String → Bytes → Except Failure Files := writeFile false

/-- Write a file that is not there yet. -/
def writeNew : Files → String → Bytes → Except Failure Files := writeFile true

/-- Remove a file. -/
def remove (files : Files) (path : String) : Except Failure Files := do
  match ← files.place path with
  | (_, _, none) => throw .isADirectory
  | (s, entries, some name) =>
    match ← look entries name with
    | none => throw .notFound
    | some (.directory _) => throw .isADirectory
    | some _ =>
      return { files with top := files.rebuild s (entries.filter (·.1 ≠ name)) }

/-- Make a directory. -/
def makeDirectory (files : Files) (path : String) : Except Failure Files := do
  match ← files.place path with
  | (_, _, none) => throw .alreadyExists
  | (s, entries, some name) =>
    match ← look entries name with
    | none => return files.put s entries name (.directory [])
    | some _ => throw .alreadyExists

/-- It is fine that a directory was not made if it is there, else the reason counts. -/
def orThere (files : Files) (path : String) (reason : Failure) : Except Failure Unit :=
  if files.isDirectory path then .ok () else .error reason

/-- Make the directory in front, before that the ones behind it as far as they are missing. What was
made stays, even if the rest fails. -/
def makeChain (files : Files) : List String → Except Failure Unit × Files
  | [] => (.ok (), files)
  | path :: above =>
    match files.makeDirectory path with
    | .ok files => (.ok (), files)
    | .error .notFound =>
      match files.makeChain above with
      | (.error e, files) => (.error e, files)
      | (.ok _, files) =>
        match files.makeDirectory path with
        | .ok files => (.ok (), files)
        | .error e => (files.orThere path e, files)
    | .error e => (files.orThere path e, files)

/-- Make a directory and the missing ones that hold it. -/
def makeDirectories (files : Files) (path : String) : Except Failure Unit × Files :=
  files.makeChain (Path.withParents path)

end Files

end HybridAccess.Host
