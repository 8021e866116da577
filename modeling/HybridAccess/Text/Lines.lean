/-
  HybridAccess — cutting a text into pieces.

  All cuts work on lists of characters: `splitOn` at every occurrence of a
  separator, `cut?` at the first one, `lines` at line feeds, `words` at runs
  of blanks, and `trim` at both ends.
-/
import HybridAccess.Text.Blank

namespace HybridAccess.Text

/-- Put a character in front of the first piece. -/
def consFirst (c : Char) : List (List Char) → List (List Char)
  | [] => [[c]]
  | p :: ps => (c :: p) :: ps

/-- The pieces between the occurrences of `sep`; one piece if there is none. -/
def splitOn (sep : Char) (cs : List Char) : List (List Char) :=
  cs.foldr (fun c pieces => if c = sep then [] :: pieces else consFirst c pieces) [[]]

@[simp] theorem splitOn_nil (sep : Char) : splitOn sep [] = [[]] := rfl

theorem splitOn_cons (sep c : Char) (cs : List Char) : splitOn sep (c :: cs) =
    if c = sep then [] :: splitOn sep cs else consFirst c (splitOn sep cs) := rfl

theorem splitOn_ne_nil (sep : Char) (cs : List Char) : splitOn sep cs ≠ [] := by
  cases cs with
  | nil => simp
  | cons c cs =>
    rw [splitOn_cons]
    split
    · simp
    · cases splitOn sep cs <;> simp [consFirst]

/-- What stands before the first `sep` and what stands after it. -/
def cut? (sep : Char) (cs : List Char) : Option (List Char × List Char) :=
  match cs.dropWhile (· ≠ sep) with
  | [] => none
  | _ :: rest => some (cs.takeWhile (· ≠ sep), rest)

/-- A line without the carriage return that stood before its line feed. -/
def dropReturn (line : List Char) : List Char :=
  if line.getLast? = some '\r' then line.dropLast else line

/-- The lines among the pieces between line feeds: each piece that a line feed ends, and the last
piece unless it is empty. -/
def linesOf : List (List Char) → List (List Char)
  | [] => []
  | [last] => if last.isEmpty then [] else [last]
  | line :: rest => dropReturn line :: linesOf rest

/-- The lines of a text. A line ends with a line feed, or a carriage return and a line feed. -/
def lines (cs : List Char) : List (List Char) :=
  linesOf (splitOn '\n' cs)

/-- The text without the blanks at its two ends. -/
def trim (cs : List Char) : List Char :=
  ((cs.dropWhile isBlank).reverse.dropWhile isBlank).reverse

/-- The nonempty pieces between blanks. -/
def words (cs : List Char) : List (List Char) :=
  (cs.foldr (fun c pieces => if isBlank c then [] :: pieces else consFirst c pieces) [[]]).filter
    (! ·.isEmpty)

end HybridAccess.Text
