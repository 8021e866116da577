/-
  HybridAccess — IPv4 addresses.

  `toText` writes the four octets with points between them; `ofText?` reads
  exactly this form: no leading zeros, nothing before or after.
-/
import HybridAccess.Text.Lines
import HybridAccess.Text.Number

namespace HybridAccess

/-- An IPv4 address, as its four octets. -/
structure IPv4 where
  a : UInt8
  b : UInt8
  c : UInt8
  d : UInt8
deriving DecidableEq, Repr

namespace IPv4

/-- The address that stands for none. -/
def unspecified : IPv4 := ⟨0, 0, 0, 0⟩

/-- The octets in order. -/
def octets (ip : IPv4) : List UInt8 := [ip.a, ip.b, ip.c, ip.d]

/-- The dotted decimal form. -/
def chars (ip : IPv4) : List Char :=
  ['.'].intercalate (ip.octets.map fun o => Text.decimal o.toNat)

/-- The dotted decimal form. -/
def toText (ip : IPv4) : String :=
  String.ofList ip.chars

/-- An octet: one to three decimal digits, below 256, with no zero in front. -/
def octet? (cs : List Char) : Option UInt8 :=
  if cs.length ≤ 3 ∧ (cs.length = 1 ∨ cs.head? ≠ some '0') then
    ((Text.natural? 10 cs).filter (· < 256)).map UInt8.ofNat
  else none

/-- The address that a list of characters is the dotted decimal form of. -/
def ofChars? (cs : List Char) : Option IPv4 :=
  match Text.splitOn '.' cs with
  | [a, b, c, d] => do some ⟨← octet? a, ← octet? b, ← octet? c, ← octet? d⟩
  | _ => none

/-- The address that a text is the dotted decimal form of. -/
def ofText? (text : String) : Option IPv4 :=
  ofChars? text.toList

end IPv4

end HybridAccess
