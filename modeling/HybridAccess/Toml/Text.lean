/-
  HybridAccess — texts in TOML documents.

  A text is written in one of four forms: between double quotes, where a
  backslash starts an escape, or between single quotes, where nothing is
  special; and either on one line or between triple quotes on several lines. A
  line feed right behind opening triple quotes does not belong to the text.

  * `Text.read?` reads a text in any form and returns what stands behind it;
  * `Text.write` chooses the first form that fits from: double quotes without
    escapes, single quotes, triple double quotes without escapes, triple single
    quotes, and at last double quotes with escapes.

  Line ends are single line feeds here; a carriage return is a control
  character like others.
-/
import HybridAccess.Bytes
import HybridAccess.Text.Number

namespace HybridAccess.Toml.Text

/-! ## Characters -/

/-- Whether a character is a blank inside a line. -/
def isBlank (c : Char) : Bool := c = ' ' || c = '\t'

/-- Whether a character may not stand in a document, except for a tab and a line feed. -/
def isControl (c : Char) : Bool := c.toNat < 0x20 || c.toNat = 0x7F

/-- Whether a character may stand in a line. -/
def isPlain (c : Char) : Bool := c = '\t' || ! isControl c

/-! ## Reading -/

/-- Put a character in front of a text that was read. -/
def push (c : Char) (r : Option (List Char × List Char)) : Option (List Char × List Char) :=
  r.map fun (text, rest) => (c :: text, rest)

/-- The end of a text between triple quotes: up to two quotes may stand directly before the closing
ones and belong to the text. -/
def closing? (quote : Char) (cs : List Char) : Option (List Char × List Char) :=
  let run := (cs.takeWhile (· = quote)).length
  if run < 3 then none
  else some (List.replicate (Nat.min (run - 3) 2) quote, cs.drop (Nat.min run 5))

/-- What a backslash and one character stand for. -/
def escaped? : Char → Option Char
  | 'b' => some '\x08'
  | 't' => some '\t'
  | 'n' => some '\n'
  | 'f' => some '\x0c'
  | 'r' => some '\r'
  | '"' => some '"'
  | '\\' => some '\\'
  | _ => none

/-- The character with a number. -/
def char? (n : Nat) : Option Char :=
  if n.isValidChar then some (Char.ofNat n) else none

/-- Where the reader of a text between double quotes stands. -/
inductive Mode
  | plain
  /-- Behind a backslash. -/
  | escape
  /-- In the number of a character, so many digits before its end. -/
  | code (digits value : Nat)
  /-- Behind a backslash and blanks, where the line has to end. -/
  | lineEnd
  /-- Behind a backslash that ended a line. Blanks and line feeds do not count. -/
  | folding
deriving DecidableEq

/-- Read the rest of a text between double quotes, over several lines if `multi`. -/
def readBasic (multi : Bool) : Mode → List Char → Option (List Char × List Char)
  | _, [] => none
  | .escape, c :: cs =>
    if c = 'u' then readBasic multi (.code 4 0) cs
    else if c = 'U' then readBasic multi (.code 8 0) cs
    else if multi ∧ c = '\n' then readBasic multi .folding cs
    else if multi ∧ isBlank c then readBasic multi .lineEnd cs
    else (escaped? c).bind fun e => push e (readBasic multi .plain cs)
  | .lineEnd, c :: cs =>
    if c = '\n' then readBasic multi .folding cs
    else if isBlank c then readBasic multi .lineEnd cs
    else none
  | .code digits value, c :: cs =>
    (Bytes.hexValue? c).bind fun d =>
      if digits ≤ 1 then
        (char? (16 * value + d)).bind fun e => push e (readBasic multi .plain cs)
      else readBasic multi (.code (digits - 1) (16 * value + d)) cs
  | mode, c :: cs =>
    if mode = .folding ∧ (isBlank c ∨ c = '\n') then readBasic multi .folding cs
    else if c = '"' then
      if multi then (closing? '"' (c :: cs)).or (push c (readBasic multi .plain cs))
      else some ([], cs)
    else if c = '\\' then readBasic multi .escape cs
    else if isPlain c ∨ (multi ∧ c = '\n') then push c (readBasic multi .plain cs)
    else none

/-- Read the rest of a text between single quotes, over several lines if `multi`. -/
def readLiteral (multi : Bool) : List Char → Option (List Char × List Char)
  | [] => none
  | c :: cs =>
    if c = '\'' then
      if multi then (closing? '\'' (c :: cs)).or (push c (readLiteral multi cs))
      else some ([], cs)
    else if isPlain c ∨ (multi ∧ c = '\n') then push c (readLiteral multi cs)
    else none

/-- What stands behind an opening triple quote, without a line feed right behind it. -/
def dropLineFeed : List Char → List Char
  | '\n' :: cs => cs
  | cs => cs

/-- Read a text on one line, and return it with what stands behind it. -/
def readLine? : List Char → Option (List Char × List Char)
  | '"' :: cs => readBasic false .plain cs
  | '\'' :: cs => readLiteral false cs
  | _ => none

/-- Read a text, and return it with what stands behind it. -/
def read? : List Char → Option (List Char × List Char)
  | '"' :: '"' :: '"' :: cs => readBasic true .plain (dropLineFeed cs)
  | '\'' :: '\'' :: '\'' :: cs => readLiteral true (dropLineFeed cs)
  | cs => readLine? cs

/-! ## Writing -/

/-- The length of the longest run of a character. -/
def longestRun (c : Char) (cs : List Char) : Nat :=
  (cs.foldl (fun (current, best) x =>
    if x = c then (current + 1, Nat.max best (current + 1)) else (0, best)) (0, 0)).2

/-- Whether a text has a control character that only an escape can write. -/
def needsEscape (cs : List Char) : Bool :=
  cs.any fun c => isControl c && c != '\t' && c != '\n'

/-- The escape of a character that needs one. Line feeds are kept on several lines. -/
def escape (multi : Bool) (c : Char) : List Char :=
  match c with
  | '\x08' => ['\\', 'b']
  | '\t' => ['\\', 't']
  | '\n' => if multi then ['\n'] else ['\\', 'n']
  | '\x0c' => ['\\', 'f']
  | '\r' => ['\\', 'r']
  | '\\' => ['\\', '\\']
  | _ => if isControl c then '\\' :: 'u' :: (Text.hexUpper 4 c.toNat).toList else [c]

/-- A text with escapes, `quotes` double quotes standing directly before it. On several lines two
double quotes in a row stand for themselves. -/
def escapeAll (multi : Bool) (quotes : Nat) : List Char → List Char
  | [] => []
  | c :: cs =>
    if c = '"' then
      if multi ∧ quotes < 2 then '"' :: escapeAll multi (quotes + 1) cs
      else '\\' :: '"' :: escapeAll multi 0 cs
    else escape multi c ++ escapeAll multi 0 cs

/-- A text between double quotes. -/
def basic (cs : List Char) : List Char :=
  '"' :: escapeAll false 0 cs ++ ['"']

/-- A text between single quotes. -/
def literal (cs : List Char) : List Char :=
  '\'' :: cs ++ ['\'']

/-- Triple quotes around a text. A text with several lines starts on a line of its own. -/
def triple (quote : Char) (text body : List Char) : List Char :=
  List.replicate 3 quote ++ (if '\n' ∈ text then ['\n'] else []) ++ body ++ List.replicate 3 quote

/-- The longest run of quotes that is counted. -/
def countedRun : Nat := 255

/-- Whether the runs of quotes in a text can be counted. -/
def isCountable (cs : List Char) : Bool :=
  longestRun '"' cs ≤ countedRun && longestRun '\'' cs ≤ countedRun

/-- Write a text whose runs of quotes can be counted. -/
def write (cs : List Char) : List Char :=
  let controls := needsEscape cs
  let backslash := cs.contains '\\'
  let lines := cs.contains '\n'
  let double := longestRun '"' cs
  let single := longestRun '\'' cs
  if ! controls ∧ ! backslash ∧ double = 0 ∧ ! lines then basic cs
  else if ! controls ∧ single = 0 ∧ ! lines then literal cs
  else if ! controls ∧ ! backslash ∧ double ≤ 2 then triple '"' cs (escapeAll true 0 cs)
  else if ! controls ∧ single ≤ 2 then triple '\'' cs cs
  else if lines then triple '"' cs (escapeAll true 0 cs)
  else basic cs

end HybridAccess.Toml.Text
