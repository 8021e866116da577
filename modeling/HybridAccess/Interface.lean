/-
  HybridAccess — the end point of a link.

  A link is configured by an address or by the name of a network interface
  (`Interface.isName`). The addresses of all interfaces are listed in a table
  of lines with six fields: address, index, prefix length, scope, flags and
  name, the numbers in hexadecimal. `Interface.endpoint` is the address itself,
  or the first address of the interface whose scope is global.
-/
import HybridAccess.Address.IPv6
import HybridAccess.Host.Failure

namespace HybridAccess.Interface

/-- Whether a text names an interface, and is no address. -/
def isName (text : String) : Bool :=
  (IPv6.ofText? text).isNone

/-- The scope of addresses that are valid everywhere. -/
def globalScope : Nat := 0

/-- The address in a line of the table, if it is a global address of the interface. -/
def lineAddress? (name line : List Char) : Option IPv6 :=
  match Text.words line with
  | [address, _, _, scope, _, owner] =>
    if owner = name ∧ Text.unsigned? 16 UInt8.size scope = some globalScope then
      (Text.unsigned? 16 (Nat.pow 2 128) address).map IPv6.ofNat
    else none
  | _ => none

/-- The first global address of an interface. -/
def globalAddress? (table name : String) : Option IPv6 :=
  (Text.lines table.toList).findSome? (lineAddress? name.toList)

/-- Why the end point of a link is not known. -/
inductive Unresolved
  /-- The table cannot be read. -/
  | table (reason : Host.Failure)
  /-- The interface has no global address. -/
  | noAddress (name : String)
deriving DecidableEq, Repr

/-- The text of a reason. -/
def Unresolved.message : Unresolved → String
  | table reason => reason.message
  | noAddress name => "No global IPv6 address on interface '" ++ name ++ "'"

/-- The text that a file holds, given its bytes. -/
def tableText (file : Except Host.Failure Bytes) : Except Unresolved String :=
  match file with
  | .error reason => .error (.table reason)
  | .ok bytes =>
    match Bytes.toText? bytes with
    | some text => .ok text
    | none => .error (.table .notText)

/-- The end point of a link. The table is only looked at if the link is named by its interface. -/
def endpoint (interface : String) (file : Except Host.Failure Bytes) : Except Unresolved IPv6 :=
  match IPv6.ofText? interface with
  | some ip => .ok ip
  | none => do
    match globalAddress? (← tableText file) interface with
    | some ip => return ip
    | none => throw (.noAddress interface)

end HybridAccess.Interface
