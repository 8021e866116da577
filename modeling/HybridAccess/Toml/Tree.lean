/-
  HybridAccess — the tree that TOML statements build.

  Statements build a tree of tables step by step. How a table came about
  decides what may be added to it: a table that was opened by its own line or
  written inline may not be reached by a path with points, and a table may be
  opened once, unless it only came about on the way to another one.
-/
import HybridAccess.Value

namespace HybridAccess.Toml

/-- Names that lead from a table into the tables inside it. -/
abbrev Path := List String

/-- How a table came about. -/
inductive Origin
  /-- By a line of its own. -/
  | opened
  /-- On the way to a table that was opened. -/
  | implied
  /-- On the way to a value that was given to a path with points. -/
  | dotted
deriving DecidableEq, Repr

/-- A tree that is being built. -/
inductive Node
  | value (v : Value)
  | table (origin : Origin) (entries : List (String × Node))
  /-- A list of tables, the last one in front. -/
  | tables (last : List (String × Node)) (before : List (List (String × Node)))

namespace Tree

/-- The entries of a table, in the order in which they came about. -/
abbrev Entries := List (String × Node)

/-- Change or add an entry. -/
def update (name : String) (f : Option Node → Option Node) : Entries → Option Entries
  | [] => (f none).map fun n => [(name, n)]
  | (k, n) :: rest =>
    if k = name then (f (some n)).map fun n => (k, n) :: rest
    else (update name f rest).map ((k, n) :: ·)

/-- Change the table at the end of a path. Tables that are missing on the way come about, as `onWay`
says; of a list of tables the last one is meant. -/
def within (onWay : Origin) (f : Origin → Entries → Option Entries) :
    Path → Origin → Entries → Option Entries
  | [], origin, entries => f origin entries
  | name :: path, _, entries =>
    update name (fun
      | none => (within onWay f path onWay []).map (.table onWay)
      | some (.value _) => none
      | some (.tables last before) => (within onWay f path .opened last).map (.tables · before)
      | some (.table origin entries) =>
        if onWay = .dotted ∧ origin = .opened then none
        else (within onWay f path origin entries).map (.table origin)) entries

/-- Change the table or value with a path, given what is there. -/
def edit (onWay : Origin) (f : Option Node → Option Node) (path : Path) (entries : Entries) :
    Option Entries :=
  match path.getLast? with
  | none => none
  | some name => within onWay (fun _ es => update name f es) path.dropLast .opened entries

/-- Give a value to a path with or without points, which must not have one. A path without points
only adds to tables that were not made by points, and the other way round. -/
def assign (path : Path) (v : Value) (entries : Entries) : Option Entries :=
  match path.getLast? with
  | none => none
  | some name =>
    within .dotted (fun origin es =>
      if origin = .dotted ↔ path.dropLast ≠ [] then
        update name (fun
          | none => some (.value v)
          | some _ => none) es
      else none) path.dropLast .opened entries

/-- Open a table among entries. One that came about on the way to another table keeps its entries,
but now stands last. -/
def openAmong (name : String) (entries : Entries) : Option Entries :=
  match entries.lookup name with
  | none => some (entries ++ [(name, .table .opened [])])
  | some (.table .implied es) =>
    some (entries.filter (·.1 ≠ name) ++ [(name, .table .opened es)])
  | some _ => none

/-- Open a table. -/
def openTable (path : Path) (entries : Entries) : Option Entries :=
  path.getLast?.bind fun name =>
    within .implied (fun _ => openAmong name) path.dropLast .opened entries

/-- Open one more table of a list of tables. -/
def openElement (path : Path) : Entries → Option Entries :=
  edit .implied (fun
    | none => some (.tables [] [])
    | some (.tables last before) => some (.tables [] (last :: before))
    | some _ => none) path

/-! ## Values -/

mutual

/-- The value of a tree. -/
def ofNode : Node → Value
  | .value v => v
  | .table _ entries => .table (ofEntries entries)
  | .tables last before => .list (ofElements before [.table (ofEntries last)])

/-- The values of entries. -/
def ofEntries : Entries → List (String × Value)
  | [] => []
  | (name, n) :: rest => (name, ofNode n) :: ofEntries rest

/-- The values of tables, which come in reverse, in front of the values behind them. -/
def ofElements : List Entries → List Value → List Value
  | [], behind => behind
  | es :: rest, behind => ofElements rest (.table (ofEntries es) :: behind)

end

/-- The table that pairs of a path and a value make. -/
def ofPairs? (pairs : List (Path × Value)) : Option Value :=
  (pairs.foldlM (fun entries (p : Path × Value) => assign p.1 p.2 entries) []).map fun entries =>
    .table (ofEntries entries)

end Tree

end HybridAccess.Toml
