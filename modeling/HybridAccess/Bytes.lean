/-
  HybridAccess — byte strings, as they are sent and received.

  * Words are written most significant byte first (`be16`, `be32`) and read
    back by `word16` and `word32`; each pair is inverse in both directions.
  * `hex` and `hexSpaced` print a byte string as lower-case digit pairs, and
    `ofHex?` reads pairs of digits of either case.
-/

namespace HybridAccess

/-- A byte string. -/
abbrev Bytes := List UInt8

namespace Bytes

/-! ## Words -/

/-- The two bytes of a word, most significant first. -/
def be16 (w : UInt16) : Bytes :=
  [UInt8.ofNat (w.toNat / 0x100), w.toUInt8]

/-- The four bytes of a word, most significant first. -/
def be32 (w : UInt32) : Bytes :=
  [UInt8.ofNat (w.toNat / 0x1000000), UInt8.ofNat (w.toNat / 0x10000),
    UInt8.ofNat (w.toNat / 0x100), w.toUInt8]

/-- The word whose bytes are `a` and `b`. -/
def word16 (a b : UInt8) : UInt16 :=
  UInt16.ofNat (a.toNat * 0x100 + b.toNat)

/-- The word whose bytes are `a`, `b`, `c` and `d`. -/
def word32 (a b c d : UInt8) : UInt32 :=
  UInt32.ofNat (((a.toNat * 0x100 + b.toNat) * 0x100 + c.toNat) * 0x100 + d.toNat)

@[simp] theorem length_be16 (w : UInt16) : (be16 w).length = 2 := rfl

@[simp] theorem length_be32 (w : UInt32) : (be32 w).length = 4 := rfl

theorem toNat_word16 (a b : UInt8) : (word16 a b).toNat = a.toNat * 0x100 + b.toNat := by
  have ha := a.toNat_lt; have hb := b.toNat_lt
  simp only [word16, UInt16.toNat_ofNat']; omega

theorem toNat_word32 (a b c d : UInt8) : (word32 a b c d).toNat =
    ((a.toNat * 0x100 + b.toNat) * 0x100 + c.toNat) * 0x100 + d.toNat := by
  have ha := a.toNat_lt; have hb := b.toNat_lt; have hc := c.toNat_lt; have hd := d.toNat_lt
  simp only [word32, UInt32.toNat_ofNat']; omega

/-- Writing a word that was read gives its bytes back. -/
theorem be16_word16 (a b : UInt8) : be16 (word16 a b) = [a, b] := by
  have ha := a.toNat_lt; have hb := b.toNat_lt
  simp only [be16, toNat_word16, List.cons.injEq, and_true, ← UInt8.toNat_inj, UInt8.toNat_ofNat',
    UInt16.toNat_toUInt8]
  omega

/-- Writing a word that was read gives its bytes back. -/
theorem be32_word32 (a b c d : UInt8) : be32 (word32 a b c d) = [a, b, c, d] := by
  have ha := a.toNat_lt; have hb := b.toNat_lt; have hc := c.toNat_lt; have hd := d.toNat_lt
  simp only [be32, toNat_word32, List.cons.injEq, and_true, ← UInt8.toNat_inj, UInt8.toNat_ofNat',
    UInt32.toNat_toUInt8]
  omega

/-- Reading the two bytes of a word gives the word back. -/
theorem word16_be16 (w : UInt16) :
    word16 (UInt8.ofNat (w.toNat / 0x100)) w.toUInt8 = w := by
  have hw := w.toNat_lt
  simp only [← UInt16.toNat_inj, toNat_word16, UInt8.toNat_ofNat', UInt16.toNat_toUInt8]; omega

/-- Reading the four bytes of a word gives the word back. -/
theorem word32_be32 (w : UInt32) :
    word32 (UInt8.ofNat (w.toNat / 0x1000000)) (UInt8.ofNat (w.toNat / 0x10000))
      (UInt8.ofNat (w.toNat / 0x100)) w.toUInt8 = w := by
  have hw := w.toNat_lt
  simp only [← UInt32.toNat_inj, toNat_word32, UInt8.toNat_ofNat', UInt32.toNat_toUInt8]; omega

/-! ## Digits -/

/-- The lower-case hexadecimal digit of a number below sixteen. -/
def hexDigit (n : Nat) : Char :=
  if n < 10 then Char.ofNat (0x30 + n) else Char.ofNat (0x57 + n)

/-- The two digits of a byte. -/
def hexPair (b : UInt8) : String :=
  String.ofList [hexDigit (b.toNat / 16), hexDigit (b.toNat % 16)]

/-- The digits of all bytes, without separators. -/
def hex (bs : Bytes) : String :=
  bs.foldl (fun s b => (s.push (hexDigit (b.toNat / 16))).push (hexDigit (b.toNat % 16))) ""

/-- The digits of all bytes, a space between two bytes. -/
def hexSpaced (bs : Bytes) : String :=
  " ".intercalate (bs.map hexPair)

/-- The value of a hexadecimal digit of either case. -/
def hexValue? (c : Char) : Option Nat :=
  if '0' ≤ c ∧ c ≤ '9' then some (c.toNat - 0x30)
  else if 'a' ≤ c ∧ c ≤ 'f' then some (c.toNat - 0x57)
  else if 'A' ≤ c ∧ c ≤ 'F' then some (c.toNat - 0x37)
  else none

/-- The bytes written as pairs of digits, the ones read so far in reverse. -/
def ofHexChars? (acc : Bytes) : List Char → Option Bytes
  | [] => some acc.reverse
  | [_] => none
  | a :: b :: rest =>
    match hexValue? a, hexValue? b with
    | some x, some y => ofHexChars? (UInt8.ofNat (16 * x + y) :: acc) rest
    | _, _ => none

/-- The byte string that a text of digit pairs stands for. -/
def ofHex? (text : String) : Option Bytes :=
  ofHexChars? [] text.toList

/-- The UTF-8 form of a text. -/
def ofText (text : String) : Bytes :=
  text.toUTF8.toList

/-- The text that a byte string is the UTF-8 form of. -/
def toText? (bs : Bytes) : Option String :=
  String.fromUTF8? ⟨bs.toArray⟩

end Bytes

end HybridAccess
