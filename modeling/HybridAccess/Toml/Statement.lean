/-
  HybridAccess — the statements of TOML documents.

  A document is a sequence of lines. A line is empty, or it gives a value to a
  key (`assign`), or it opens a table (`table`) or one more element of a list
  of tables (`element`), to which the following lines belong. Keys are paths:
  names with points between them. A comment may stand at the end of each line.

  A value may be a list, which may go over several lines, or an inline table,
  which may not. How deep they are nested is limited.
-/
import HybridAccess.Toml.Scalar
import HybridAccess.Toml.Text
import HybridAccess.Toml.Tree

namespace HybridAccess.Toml

/-- What a line says. -/
inductive Statement
  | assign (path : Path) (value : Value)
  | table (path : Path)
  | element (path : Path)
deriving Repr

namespace Statement

/-- A path is shorter than this, and so is a chain of values inside each other. -/
def nestingLimit : Nat := 80

/-! ## Blanks and comments -/

/-- What stands behind the blanks at the front. -/
def skipBlanks (cs : List Char) : List Char :=
  cs.dropWhile Text.isBlank

/-- What stands behind a comment at the front. -/
def skipComment : List Char → List Char
  | '#' :: cs => cs.dropWhile Text.isPlain
  | cs => cs

/-- What stands behind the end of a line; blanks and a comment may stand before it. -/
def endLine? (cs : List Char) : Option (List Char) :=
  match skipComment (skipBlanks cs) with
  | [] => some []
  | '\n' :: rest => some rest
  | _ => none

/-- What stands behind blanks, line ends and comments at the front. -/
def skipLines (inComment : Bool) : List Char → List Char
  | [] => []
  | c :: cs =>
    if c = '\n' then skipLines false cs
    else if inComment then if Text.isPlain c then skipLines true cs else c :: cs
    else if Text.isBlank c then skipLines false cs
    else if c = '#' then skipLines true cs
    else c :: cs

/-! ## Keys -/

/-- Whether a character may stand in a name without quotes. -/
def isNameChar (c : Char) : Bool := c.isAlphanum || c = '_' || c = '-'

/-- Read a name, with or without quotes. -/
def name? (cs : List Char) : Option (String × List Char) :=
  match Text.readLine? cs with
  | some (text, rest) => some (String.ofList text, rest)
  | none =>
    let name := cs.takeWhile isNameChar
    if name.isEmpty then none else some (String.ofList name, cs.dropWhile isNameChar)

/-- Read at most `limit` names with points between them, and the blanks around them. -/
def names? : (limit : Nat) → List Char → Option (Path × List Char)
  | 0, _ => none
  | limit + 1, cs =>
    match name? (skipBlanks cs) with
    | none => none
    | some (name, rest) =>
      match skipBlanks rest with
      | '.' :: rest => (names? limit rest).map fun (names, rest) => (name :: names, rest)
      | rest => some ([name], rest)

/-- Read a path and the blanks around it. -/
def path? (cs : List Char) : Option (Path × List Char) :=
  names? (nestingLimit - 1) cs

/-! ## Values -/

/-- Something that reads a value, and returns it with what stands behind it. -/
abbrev Reader := List Char → Option (Value × List Char)

/-- Read a path, an equals sign and a value. -/
def pair? (value : Reader) (cs : List Char) : Option ((Path × Value) × List Char) :=
  match path? cs with
  | some (path, '=' :: rest) =>
    (value (skipBlanks rest)).map fun (v, rest) => ((path, v), rest)
  | _ => none

/-- Read the rest of a list of at most `limit` values, behind its bracket or a comma. -/
def elements? (value : Reader) : (limit : Nat) → List Char → Option (List Value × List Char)
  | 0, _ => none
  | limit + 1, cs =>
    match skipLines false cs with
    | ']' :: rest => some ([], rest)
    | front =>
      match value front with
      | none => none
      | some (v, rest) =>
        match skipLines false rest with
        | ']' :: rest => some ([v], rest)
        | ',' :: rest => (elements? value limit rest).map fun (vs, rest) => (v :: vs, rest)
        | _ => none

/-- Read the rest of an inline table of at most `limit` pairs, behind its brace or a comma. -/
def pairs? (value : Reader) :
    (limit : Nat) → List Char → Option (List (Path × Value) × List Char)
  | 0, _ => none
  | limit + 1, cs =>
    match pair? value cs with
    | none => none
    | some (p, rest) =>
      match skipBlanks rest with
      | '\x7d' :: rest => some ([p], rest)
      | ',' :: rest => (pairs? value limit rest).map fun (ps, rest) => (p :: ps, rest)
      | _ => none

/-- Read the rest of an inline table of at most `limit` pairs, behind its brace. -/
def inlineTable? (value : Reader) (limit : Nat) (cs : List Char) : Option (Value × List Char) :=
  match skipBlanks cs with
  | '\x7d' :: rest => some (.table [], rest)
  | _ => do
    let (ps, rest) ← pairs? value limit cs
    some (← Tree.ofPairs? ps, rest)

/-- Read a text or a value without quotes. -/
def single? (cs : List Char) : Option (Value × List Char) :=
  match Text.read? cs with
  | some (text, rest) => some (.text (String.ofList text), rest)
  | none => Scalar.read? cs

/-- Read a value that has at most `depth` lists and inline tables inside each other, and at most
`limit` values side by side. -/
def value? (limit : Nat) : (depth : Nat) → Reader
  | depth + 1, '[' :: rest =>
    (elements? (value? limit depth) limit rest).map fun (vs, rest) => (.list vs, rest)
  | depth + 1, '\x7b' :: rest => inlineTable? (value? limit depth) limit rest
  | _, cs => single? cs

/-! ## Lines -/

/-- Read a path between brackets, the opening ones being read. -/
def header? (closing : List Char) (cs : List Char) : Option (Path × List Char) := do
  let (path, rest) ← path? cs
  if closing.isPrefixOf rest then
    some (path, ← endLine? (rest.drop closing.length))
  else none

/-- Read a line, and return what it says, if anything, with the lines behind it. -/
def line? (limit : Nat) (cs : List Char) : Option (Option Statement × List Char) :=
  match endLine? cs with
  | some rest => some (none, rest)
  | none =>
    match skipBlanks cs with
    | '[' :: '[' :: rest =>
      (header? [']', ']'] rest).map fun (path, rest) => (some (.element path), rest)
    | '[' :: rest => (header? [']'] rest).map fun (path, rest) => (some (.table path), rest)
    | front => do
      let ((path, v), rest) ← pair? (value? limit (nestingLimit - 1)) front
      some (some (.assign path v), ← endLine? rest)

/-- Read at most `lines` lines behind the statements that were read, which come in reverse. -/
def readLines? (limit : Nat) (before : List Statement) :
    (lines : Nat) → List Char → Option (List Statement)
  | _, [] => some before.reverse
  | 0, _ => none
  | lines + 1, cs =>
    match line? limit cs with
    | none => none
    | some (s, rest) => readLines? limit (s.toList ++ before) lines rest

/-- Read all lines. A text has no more lines, and no list more values, than characters. -/
def readAll? (cs : List Char) : Option (List Statement) :=
  readLines? cs.length [] cs.length cs

end Statement

end HybridAccess.Toml
