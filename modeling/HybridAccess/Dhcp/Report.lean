/-
  HybridAccess — what the negotiating program prints.

  A report is made of lines `key=value`, blanks around a line not counting.
  Four keys are known; of several lines with the same key the last one counts,
  and a value that cannot be read counts as none. All other lines are noise.

  `Report.ofText` reads a report, `noise` lists the other lines, and `lease?`
  turns a report into a lease of a family.
-/
import HybridAccess.Session.Lease
import HybridAccess.Text.Lines

namespace HybridAccess.Dhcp

/-- What is known of a lease. -/
structure Report where
  address : Option IPv4
  prefixAddress : Option IPv6
  prefixLength : Option UInt8
  /-- How many seconds the lease lasts. -/
  seconds : Option UInt32
deriving DecidableEq, Repr

namespace Report

/-- Nothing known. -/
def empty : Report := ⟨none, none, none, none⟩

/-- The keys of a report. -/
inductive Key
  | address
  | prefixAddress
  | prefixLength
  | seconds
deriving DecidableEq, Repr

/-- The key with a given spelling. -/
def Key.ofChars? (cs : List Char) : Option Key :=
  if cs = "ip".toList then some address
  else if cs = "prefix_address".toList then some prefixAddress
  else if cs = "prefix_length".toList then some prefixLength
  else if cs = "lease".toList then some seconds
  else none

/-- Put the value of a key into a report. -/
def set (r : Report) (key : Key) (value : List Char) : Report :=
  match key with
  | .address => { r with address := IPv4.ofChars? value }
  | .prefixAddress => { r with prefixAddress := IPv6.ofChars? value }
  | .prefixLength => { r with prefixLength := (Text.unsigned? 10 UInt8.size value).map UInt8.ofNat }
  | .seconds => { r with seconds := (Text.unsigned? 10 UInt32.size value).map UInt32.ofNat }

/-- The key and the value of a line without the blanks around it, if the key is known. -/
def keyValue? (line : List Char) : Option (Key × List Char) := do
  let (key, value) ← Text.cut? '=' line
  some (← Key.ofChars? key, value)

/-- Put a line into a report. -/
def addLine (r : Report) (line : List Char) : Report :=
  match keyValue? (Text.trim line) with
  | some (key, value) => r.set key value
  | none => r

/-- Read a report. -/
def ofChars (cs : List Char) : Report :=
  (Text.lines cs).foldl addLine empty

/-- Read a report. -/
def ofText (text : String) : Report :=
  ofChars text.toList

/-- The lines that say nothing about the lease, without the blanks around them and without empty
ones. -/
def noise (text : String) : List String :=
  (((Text.lines text.toList).map Text.trim).filter fun line =>
    ! line.isEmpty && (keyValue? line).isNone).map String.ofList

/-- How long the lease lasts, none if it does not. -/
def length? (r : Report) : Option Duration :=
  (r.seconds.filter (· ≠ 0)).map fun s => .ofSeconds s.toNat

/-- The IPv4 lease, if it is complete. -/
def lease4? (r : Report) (obtained : Duration) : Option Lease4 := do
  let length ← r.length?
  some ⟨← r.address, ⟨length, obtained⟩⟩

/-- The IPv6 lease, if it is complete. -/
def lease6? (r : Report) (obtained : Duration) : Option Lease6 := do
  let length ← r.length?
  some ⟨← r.prefixAddress, ← r.prefixLength, ⟨length, obtained⟩⟩

/-- The lease of a family, if it is complete. -/
def lease? (r : Report) (obtained : Duration) : (family : Family) → Option (Lease family)
  | .ipv4 => r.lease4? obtained
  | .ipv6 => r.lease6? obtained

end Report

end HybridAccess.Dhcp
