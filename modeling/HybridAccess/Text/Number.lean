/-
  HybridAccess — numbers in texts.

  `decimal` writes a number without leading zeros.
  `unsigned?` reads one: an optional plus sign and at least one digit, leading
  zeros allowed, below a limit. `hexUpper` is the fixed-width form that error
  messages use.
-/
import HybridAccess.Bytes

namespace HybridAccess.Text

/-- The value of a digit in a base of at most sixteen. -/
def digitValue? (base : Nat) (c : Char) : Option Nat :=
  (Bytes.hexValue? c).filter (· < base)

/-- The number that a list of digits continues from `acc`. -/
def foldDigits? (base : Nat) (acc : Nat) : List Char → Option Nat
  | [] => some acc
  | c :: cs =>
    match digitValue? base c with
    | some d => foldDigits? base (acc * base + d) cs
    | none => none

/-- The number that a nonempty list of digits stands for. -/
def natural? (base : Nat) : List Char → Option Nat
  | [] => none
  | cs => foldDigits? base 0 cs

/-- A number below `limit`, with an optional plus sign in front. -/
def unsigned? (base limit : Nat) (cs : List Char) : Option Nat :=
  let body := match cs with
    | '+' :: rest => rest
    | _ => cs
  (natural? base body).filter (· < limit)

/-- The decimal digits of a number. -/
def decimal (n : Nat) : List Char :=
  Nat.toDigits 10 n

/-- A number in upper-case hexadecimal, filled up with zeros to `width` digits. -/
def hexUpper (width n : Nat) : String :=
  let ds := (Nat.toDigits 16 n).map Char.toUpper
  String.ofList (List.replicate (width - ds.length) '0' ++ ds)

end HybridAccess.Text
