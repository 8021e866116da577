/-
  HybridAccess — the values that settings are written as.

  A value is a tree: single values, lists and tables. Of real numbers and of
  moments in time nothing but the kind is kept, because no setting is one.
-/
import HybridAccess.Halt

namespace HybridAccess

/-- A value of a settings file. -/
inductive Value
  /-- The absence of a value. -/
  | null
  | boolean (b : Bool)
  | integer (n : Int)
  | real
  | moment
  | text (s : String)
  | list (values : List Value)
  | table (entries : List (String × Value))
deriving Repr, Inhabited

namespace Value

/-! ## Single values -/

/-- The truth value. -/
def boolean? : Value → Option Bool
  | boolean b => some b
  | _ => none

/-- The integer, if it is neither negative nor as large as a limit. -/
def natural? (limit : Nat) : Value → Option Nat
  | integer (.ofNat n) => if n < limit then some n else none
  | _ => none

/-- The text. -/
def text? : Value → Option String
  | text s => some s
  | _ => none

/-- What a value is read as, where the absence of a value is allowed. -/
def optional? {α : Type} (read : Value → Option α) : Value → Option (Option α)
  | null => some none
  | v => (read v).map some

/-! ## Records -/

/-- The entries that a record with the given names is read from: those of a table, or the values of
a list in the order of the names. A moment is a table without any of the names. -/
def entries? (names : List String) : Value → Option (List (String × Value))
  | table entries => some entries
  | moment => some []
  | list values => some (names.zip values)
  | _ => none

/-- Whether a value is a list with more values than there are names. -/
def hasSurplus (names : List String) : Value → Bool
  | list values => names.length < values.length
  | _ => false

/-- Read a record: its entries change the default one after the other, as `set` says. Surplus values
are refused at last, if the record has to be `exact`. -/
def record {α : Type} (names : List String) (exact : Bool)
    (set : α → String → Value → Except ReadFault α) (default : α) (v : Value) :
    Except ReadFault α := do
  let entries ← ReadFault.orMalformed (v.entries? names)
  let a ← entries.foldlM (fun a entry => set a entry.1 entry.2) default
  if exact ∧ v.hasSurplus names then throw .malformed else return a

end Value

end HybridAccess
