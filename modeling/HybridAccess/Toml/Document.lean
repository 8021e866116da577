/-
  HybridAccess — TOML documents.

  `Document.read?` reads a document as a table, or refuses it: an error in a
  line, a name that is given twice or a table that is opened twice.
-/
import HybridAccess.Toml.Statement

namespace HybridAccess.Toml.Document

/-- A text in which each line ends with a line feed alone. -/
def unifyLineEnds : List Char → List Char
  | '\r' :: '\n' :: cs => '\n' :: unifyLineEnds cs
  | c :: cs => c :: unifyLineEnds cs
  | [] => []

/-- A text without the mark that may stand in front of it. -/
def dropMark : List Char → List Char
  | '\uFEFF' :: cs => cs
  | cs => cs

/-- A tree and the path of the table that was opened last. -/
structure Progress where
  entries : Tree.Entries
  current : Path

/-- Follow a statement. -/
def follow (p : Progress) : Statement → Option Progress
  | .assign path v =>
    (Tree.within .implied (fun _ es => Tree.assign path v es) p.current .opened p.entries).map
      fun entries => { p with entries }
  | .table path => (Tree.openTable path p.entries).map fun entries => ⟨entries, path⟩
  | .element path => (Tree.openElement path p.entries).map fun entries => ⟨entries, path⟩

/-- The table that statements make. -/
def ofStatements? (statements : List Statement) : Option Value :=
  (statements.foldlM follow ⟨[], []⟩).map fun p => .table (Tree.ofEntries p.entries)

/-- Read a document. -/
def read? (text : String) : Option Value :=
  (Statement.readAll? (dropMark (unifyLineEnds text.toList))).bind ofStatements?

end HybridAccess.Toml.Document
