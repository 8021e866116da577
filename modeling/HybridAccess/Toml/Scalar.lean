/-
  HybridAccess — truth values, numbers and moments in TOML documents.

  These values are written without quotes, and all of them are made of a few
  characters (`isTokenChar`), so a value ends where another character stands.
  `Scalar.read?` reads one.

  An integer is decimal, with an optional sign and no zeros in front, or
  hexadecimal, octal or binary behind `0x`, `0o` and `0b`; an underscore may
  stand between two digits. It has to fit into sixty-four bits with a sign. A
  real number of the usual size has to be below `realLimit`.
-/
import HybridAccess.Text.Lines
import HybridAccess.Text.Number
import HybridAccess.Value

namespace HybridAccess.Toml.Scalar

/-- Whether a character may stand in a value without quotes. -/
def isTokenChar (c : Char) : Bool :=
  c.isAlphanum || c = '_' || c = '+' || c = '-' || c = '.' || c = ':'

/-! ## Integers -/

/-- The digits of a number in which underscores may stand between two digits. -/
def digits? (cs : List Char) : Option (List Char) :=
  let groups := Text.splitOn '_' cs
  if groups.any List.isEmpty then none else some groups.flatten

/-- A number in a base, with digits only. -/
def unsigned? (base : Nat) (cs : List Char) : Option Nat :=
  (digits? cs).bind (Text.natural? base)

/-- A decimal number without zeros in front. -/
def decimal? (cs : List Char) : Option Nat :=
  if cs.length = 1 ∨ cs.head? ≠ some '0' then unsigned? 10 cs else none

/-- The sign of a number and the rest; the sign is true if the number is negative. -/
def sign : List Char → Bool × List Char
  | '-' :: cs => (true, cs)
  | '+' :: cs => (false, cs)
  | cs => (false, cs)

/-- The largest number of an integer without its sign. -/
def magnitudeLimit (negative : Bool) : Nat :=
  if negative then UInt64.size / 2 else UInt64.size / 2 - 1

/-- An integer. -/
def integer? : List Char → Option Int
  | '0' :: 'x' :: cs => bounded false (unsigned? 16 cs)
  | '0' :: 'o' :: cs => bounded false (unsigned? 8 cs)
  | '0' :: 'b' :: cs => bounded false (unsigned? 2 cs)
  | cs =>
    let (negative, body) := sign cs
    bounded negative (decimal? body)
where
  /-- The integer with a sign and a magnitude, if it fits. -/
  bounded (negative : Bool) (magnitude : Option Nat) : Option Int :=
    (magnitude.filter (· ≤ magnitudeLimit negative)).map fun (n : Nat) =>
      if negative then -(n : Int) else n

/-! ## Real numbers -/

/-- What stands before and after the first `e`, which may be missing. -/
def cutExponent (cs : List Char) : List Char × Option (List Char) :=
  let isE (c : Char) : Bool := c = 'e' || c = 'E'
  match cs.dropWhile (! isE ·) with
  | [] => (cs, none)
  | _ :: rest => (cs.takeWhile (! isE ·), some rest)

/-- What stands before and after the first point, which may be missing. -/
def cutPoint (cs : List Char) : List Char × Option (List Char) :=
  match Text.cut? '.' cs with
  | some (whole, fraction) => (whole, some fraction)
  | none => (cs, none)

/-- The digits of a piece, none of them if it is missing. -/
def pieceDigits? : Option (List Char) → Option (List Char)
  | none => some []
  | some cs => (digits? cs).filter fun ds => (Text.natural? 10 ds).isSome

/-- The integer of an exponent, zero if it is missing. -/
def exponent? : Option (List Char) → Option Int
  | none => some 0
  | some cs =>
    let (negative, body) := sign cs
    (unsigned? 10 body).map fun (n : Nat) => if negative then -(n : Int) else n

/-- The smallest number that is too large for a binary number with a significand of fifty-three bits
and an exponent of eleven: the largest one that is not lies half a place below two to the power
1024. -/
def realLimit : Nat := Nat.pow 2 1024 - Nat.pow 2 970

/-- Whether the number with some digits, times a power of ten, is below the limit. The numbers of
digits decide, except for numbers with as many digits as the limit. -/
def isFinite (digits : List Char) (power : Int) : Bool :=
  let significant := digits.dropWhile (· = '0')
  let n := (Text.natural? 10 significant).getD 0
  let length := (significant.length : Int) + power
  if n = 0 then true
  else if length < 309 then true
  else if 309 < length then false
  else if 0 ≤ power then n * Nat.pow 10 power.toNat < realLimit
  else n < realLimit * Nat.pow 10 (-power).toNat

/-- Whether a text without its sign is a decimal number with a fraction or an exponent; a positive
one has to be finite. -/
def isDecimalReal (negative : Bool) (body : List Char) : Bool :=
  let (front, exponent) := cutExponent body
  let (whole, fraction) := cutPoint front
  match digits? whole, pieceDigits? fraction, exponent? exponent with
  | some ds, some fs, some power =>
    (fraction.isSome || exponent.isSome) && (decimal? whole).isSome &&
      (negative || isFinite (ds ++ fs) (power - fs.length))
  | _, _, _ => false

/-- Whether a text is a real number: a decimal one, or one of the two words for what no digits can
write. -/
def isReal (cs : List Char) : Bool :=
  let (negative, body) := sign cs
  body = "inf".toList || body = "nan".toList || isDecimalReal negative body

/-! ## Moments -/

/-- A decimal number with exactly two digits. -/
def two? (cs : List Char) : Option Nat :=
  if cs.length = 2 then Text.natural? 10 cs else none

/-- The number of days of a month. -/
def daysIn (year month : Nat) : Nat :=
  if month = 2 then
    if year % 4 = 0 ∧ (year % 100 ≠ 0 ∨ year % 400 = 0) then 29 else 28
  else if month = 4 ∨ month = 6 ∨ month = 9 ∨ month = 11 then 30
  else 31

/-- Whether a text is a day. -/
def isDate (cs : List Char) : Bool :=
  match Text.splitOn '-' cs with
  | [y, m, d] =>
    match Text.natural? 10 y, two? m, two? d with
    | some year, some month, some day =>
      y.length = 4 && 1 ≤ month && month ≤ 12 && 1 ≤ day && day ≤ daysIn year month
    | _, _, _ => false
  | _ => false

/-- Whether a text is an hour and a minute. -/
def isHourMinute (cs : List Char) : Bool :=
  match Text.splitOn ':' cs with
  | [h, m] => (two? h).any (· ≤ 23) && (two? m).any (· ≤ 59)
  | _ => false

/-- Whether a text is a time of a day: hour, minute and second, which may have a fraction. A minute
may have a leap second. -/
def isTime (cs : List Char) : Bool :=
  let (front, fraction) := cutPoint cs
  match Text.splitOn ':' front with
  | [h, m, s] =>
    (two? h).any (· ≤ 23) && (two? m).any (· ≤ 59) && (two? s).any (· ≤ 60) &&
      fraction.all fun f => (Text.natural? 10 f).isSome
  | _ => false

/-- Whether a text is a time of a day, with an optional distance to the zero meridian. -/
def isZonedTime (cs : List Char) : Bool :=
  let isZone (c : Char) : Bool := c = 'Z' || c = 'z' || c = '+' || c = '-'
  let time := cs.takeWhile (! isZone ·)
  isTime time &&
    match cs.dropWhile (! isZone ·) with
    | [] => true
    | [z] => z = 'Z' || z = 'z'
    | z :: offset => (z = '+' || z = '-') && isHourMinute offset

/-- The length of a day. -/
def dateLength : Nat := 10

/-- Whether a text is a day, a time of a day, or both with a letter between them. -/
def isMoment (cs : List Char) : Bool :=
  isDate cs || isTime cs ||
    match cs.drop dateLength with
    | t :: time => isDate (cs.take dateLength) && (t = 'T' || t = 't') && isZonedTime time
    | [] => false

/-! ## Values -/

/-- The value that a text without quotes stands for. -/
def ofToken? (cs : List Char) : Option Value :=
  if cs = "true".toList then some (.boolean true)
  else if cs = "false".toList then some (.boolean false)
  else match integer? cs with
    | some n => some (.integer n)
    | none => if isReal cs then some .real else if isMoment cs then some .moment else none

/-- What stands behind a day: if a blank and a time of a day follow, they belong to it. -/
def afterDate (rest : List Char) : List Char :=
  match rest with
  | ' ' :: cs => if isZonedTime (cs.takeWhile isTokenChar) then cs.dropWhile isTokenChar else rest
  | _ => rest

/-- Read a value without quotes, and return it with what stands behind it. -/
def read? (cs : List Char) : Option (Value × List Char) :=
  let token := cs.takeWhile isTokenChar
  let rest := cs.dropWhile isTokenChar
  (ofToken? token).map fun v => (v, if isDate token then afterDate rest else rest)

end HybridAccess.Toml.Scalar
