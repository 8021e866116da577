/-
  HybridAccess — IPv6 addresses.

  An address is eight groups of sixteen bits. `toText` writes the shortest
  form: the longest run of at least two zero groups, the first of several,
  becomes `::`, and an address that stands for an IPv4 address ends with its
  dotted form. `ofText?` reads every form: groups of one to four digits, one
  `::` for at least one zero group, and a dotted form for the last two groups.
-/
import HybridAccess.Address.IPv4

namespace HybridAccess

/-- An IPv6 address, as its eight groups. -/
@[ext] structure IPv6 where
  groups : List UInt16
  length_groups : groups.length = 8
deriving DecidableEq, Repr

namespace IPv6

/-- The address that stands for none. -/
def unspecified : IPv6 := ⟨List.replicate 8 0, rfl⟩

/-- The address with the given groups, if there are eight. -/
def ofGroups? (gs : List UInt16) : Option IPv6 :=
  if h : gs.length = 8 then some ⟨gs, h⟩ else none

/-- The groups that a list of bytes stands for; an odd byte at the end is dropped. -/
def groupsOfBytes : Bytes → List UInt16
  | a :: b :: rest => Bytes.word16 a b :: groupsOfBytes rest
  | _ => []

/-- The address with the given sixteen bytes. -/
def ofBytes? (bs : Bytes) : Option IPv6 :=
  if bs.length = 16 then ofGroups? (groupsOfBytes bs) else none

/-- The bytes of an address. -/
def toBytes (ip : IPv6) : Bytes :=
  ip.groups.flatMap Bytes.be16

/-- The address whose groups are the digits of `n` to the base 2^16. -/
def ofNat (n : Nat) : IPv6 :=
  ⟨(List.range 8).map fun i => UInt16.ofNat (n >>> (16 * (7 - i))), by simp⟩

/-! ## Writing -/

/-- A group without leading zeros. -/
def groupChars (g : UInt16) : List Char :=
  Nat.toDigits 16 g.toNat

/-- Groups with colons between them. -/
def joined (gs : List UInt16) : List Char :=
  [':'].intercalate (gs.map groupChars)

/-- How many zero groups stand at the front. -/
def zerosAhead (gs : List UInt16) : Nat :=
  (gs.takeWhile (· == 0)).length

/-- Where the longest run of zero groups begins, and its length; the first of several. -/
def longestRun (gs : List UInt16) : Nat × Nat :=
  (List.range gs.length).foldl
    (fun best i => if best.2 < zerosAhead (gs.drop i) then (i, zerosAhead (gs.drop i)) else best)
    (0, 0)

/-- The IPv4 address that an address stands for. -/
def mapped? (ip : IPv6) : Option IPv4 :=
  match ip.groups with
  | [0, 0, 0, 0, 0, 0xFFFF, g, h] =>
    some ⟨UInt8.ofNat (g.toNat / 256), UInt8.ofNat g.toNat, UInt8.ofNat (h.toNat / 256),
      UInt8.ofNat h.toNat⟩
  | _ => none

/-- The shortest form of an address. -/
def chars (ip : IPv6) : List Char :=
  match ip.mapped? with
  | some v4 => "::ffff:".toList ++ v4.chars
  | none =>
    let (start, length) := longestRun ip.groups
    if 1 < length then
      joined (ip.groups.take start) ++ [':', ':'] ++ joined (ip.groups.drop (start + length))
    else joined ip.groups

/-- The shortest form of an address. -/
def toText (ip : IPv6) : String :=
  String.ofList ip.chars

/-! ## Reading -/

/-- A group: one to four hexadecimal digits. -/
def group? (cs : List Char) : Option UInt16 :=
  if cs.length ≤ 4 then (Text.natural? 16 cs).map UInt16.ofNat else none

/-- The groups that a list of pieces stands for, the last of which may be a dotted form. -/
def groupsOfPieces? : List (List Char) → Option (List UInt16)
  | [] => some []
  | [p] =>
    match IPv4.ofChars? p with
    | some v4 => some [Bytes.word16 v4.a v4.b, Bytes.word16 v4.c v4.d]
    | none => (group? p).map ([·])
  | p :: ps => do some ((← group? p) :: (← groupsOfPieces? ps))

/-- The groups between the colons of a text, none if it is empty. -/
def groups? (cs : List Char) : Option (List UInt16) :=
  if cs.isEmpty then some [] else groupsOfPieces? (Text.splitOn ':' cs)

/-- What stands before and after the first double colon. -/
def cutDouble? : List Char → Option (List Char × List Char)
  | ':' :: ':' :: rest => some ([], rest)
  | c :: cs => (cutDouble? cs).map fun (front, back) => (c :: front, back)
  | [] => none

/-- The address that a list of characters is a form of. -/
def ofChars? (cs : List Char) : Option IPv6 :=
  match cutDouble? cs with
  | none => (groups? cs).bind ofGroups?
  | some (front, back) => do
    let head ← groups? front
    let tail ← groups? back
    if '.' ∈ front ∨ 7 < head.length + tail.length then none
    else ofGroups? (head ++ List.replicate (8 - head.length - tail.length) 0 ++ tail)

/-- The address that a text is a form of. -/
def ofText? (text : String) : Option IPv6 :=
  ofChars? text.toList

end IPv6

end HybridAccess
