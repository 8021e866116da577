/-
  HybridAccess — durations as a sequence of counted units.

  A span is a text such as `1h 30m` or `1.5s`: numbers, each followed by a
  unit. `Duration.span` writes one, from years down to nanoseconds, and
  `Duration.ofSpan` reads one. When reading, blanks are allowed inside and
  after a number and after a unit; a number may have a fraction, which must
  come out as whole nanoseconds, or as whole seconds for an hour and more.

  Every number, every product and every sum has to fit into sixty-four bits.
  There is one exception: a single full second that the nanoseconds make is
  carried over last of all, and if there is no room for it the reader stops.
-/
import HybridAccess.Duration.Basic
import HybridAccess.Text.Blank

namespace HybridAccess.Duration

open ReadFault (orMalformed)

/-! ## Units -/

/-- A unit of a span. -/
inductive Unit
  | nanosecond
  | microsecond
  | millisecond
  | second
  | minute
  | hour
  | day
  | week
  | month
  | year
deriving DecidableEq, Repr

namespace Unit

/-- The spellings of a unit. -/
def names : Unit → List String
  | nanosecond => ["nanos", "nsec", "ns"]
  | microsecond => ["usec", "us", "µs"]
  | millisecond => ["millis", "msec", "ms"]
  | second => ["seconds", "second", "secs", "sec", "s"]
  | minute => ["minutes", "minute", "min", "mins", "m"]
  | hour => ["hours", "hour", "hr", "hrs", "h"]
  | day => ["days", "day", "d"]
  | week => ["weeks", "week", "wk", "wks", "w"]
  | month => ["months", "month", "M"]
  | year => ["years", "year", "yr", "yrs", "y"]

/-- All units, the shortest first. -/
def all : List Unit :=
  [nanosecond, microsecond, millisecond, second, minute, hour, day, week, month, year]

/-- The unit with a given spelling. -/
def ofName? (name : String) : Option Unit :=
  all.find? (name ∈ ·.names)

/-- How many grains the unit has. A grain is a nanosecond for the units up to a millisecond, and a
second for the longer ones. A month is a twelfth of a year, and a year has 365.25 days. -/
def grains : Unit → Nat
  | nanosecond => 1
  | microsecond => 1000
  | millisecond => 1000000
  | second => 1
  | minute => 60
  | hour => 3600
  | day => 86400
  | week => 604800
  | month => 2630016
  | year => 31557600

/-- Whether the grains of the unit are seconds. -/
def hasSeconds : Unit → Bool
  | nanosecond | microsecond | millisecond => false
  | _ => true

/-- How many parts a unit is divided into when a fraction of it is counted, and whether these are
seconds. A nanosecond is not divided. -/
def parts? : Unit → Option (Nat × Bool)
  | nanosecond => none
  | second => some (1000000000, false)
  | minute => some (60000000000, false)
  | u => some (u.grains, u.hasSeconds)

end Unit

/-! ## Reading -/

/-- A number, if it fits into sixty-four bits. -/
def word64? (n : Nat) : Option Nat :=
  if n < UInt64.size then some n else none

/-- The digits after a decimal point: the number that they form, and a power of ten. -/
structure Fraction where
  numerator : Nat
  denominator : Nat
deriving DecidableEq, Repr

/-- A number of grains, which are either nanoseconds or seconds. -/
structure Grains where
  count : Nat
  isSeconds : Bool
deriving DecidableEq, Repr

namespace Grains

/-- The whole seconds among the grains. -/
def seconds (g : Grains) : Nat := if g.isSeconds then g.count else 0

/-- The nanoseconds among the grains. -/
def nanos (g : Grains) : Nat := if g.isSeconds then 0 else g.count

end Grains

/-- The length of `n` units. -/
def whole? (n : Nat) (u : Unit) : Option Grains :=
  (word64? (n * u.grains)).map (⟨·, u.hasSeconds⟩)

/-- The length of a fraction of a unit, if it is a whole number of the unit's parts. -/
def part? (f : Fraction) (u : Unit) : Option Grains := do
  let (parts, inSeconds) ← u.parts?
  let p ← word64? (f.numerator * parts)
  if p % f.denominator = 0 then some ⟨p / f.denominator, inSeconds⟩ else none

/-- Add a length to a duration. More than one full second of nanoseconds is carried over before the
seconds are added up. -/
def addGrains (total : Duration) (g : Grains) : Except ReadFault Duration := do
  let n ← orMalformed (word64? (total.subsecNanos + g.nanos))
  let carried := if Duration.second < n then n / Duration.second else 0
  let s ← orMalformed (word64? (total.seconds + g.seconds + carried))
  let sum := ofParts s (n - carried * Duration.second)
  if sum < limit then return sum else throw (.halted .durationCarry)

/-- Add a number of units, the unit given by its spelling, to a duration. -/
def addItem (total : Duration) (n : Nat) (f : Option Fraction) (unit : List Char) :
    Except ReadFault Duration := do
  let u ← orMalformed (Unit.ofName? (String.ofList unit))
  let total ← addGrains total (← orMalformed (whole? n u))
  match f with
  | none => return total
  | some f => addGrains total (← orMalformed (part? f u))

/-- Whether a character may stand in the spelling of a unit. -/
def isUnitChar (c : Char) : Bool :=
  ('a' ≤ c && c ≤ 'z') || ('A' ≤ c && c ≤ 'Z') || c == 'µ'

/-- The value of a decimal digit. -/
def digit? (c : Char) : Option Nat :=
  if '0' ≤ c ∧ c ≤ '9' then some (c.toNat - 0x30) else none

/-- Where the reader of a span stands. -/
inductive Reading
  /-- Before a number. -/
  | ahead
  /-- In a number, before any point. -/
  | inNumber (n : Nat)
  /-- Behind the point of a number. -/
  | inFraction (n : Nat) (f : Fraction)
  /-- In the spelling of a unit, its characters in reverse. -/
  | inUnit (n : Nat) (f : Option Fraction) (name : List Char)

/-- One more digit of a number. -/
def pushDigit? (n d : Nat) : Option Nat := do
  word64? ((← word64? (n * 10)) + d)

/-- One more digit of a fraction. -/
def Fraction.push? (f : Fraction) (d : Nat) : Option Fraction := do
  some ⟨← pushDigit? f.numerator d, ← word64? (f.denominator * 10)⟩

/-- Read the rest of a span, `total` being the length of the items before. -/
def readSpan (total : Duration) : Reading → List Char → Except ReadFault Duration
  | .ahead, [] => .ok total
  | .ahead, c :: cs =>
    match digit? c with
    | some d => readSpan total (.inNumber d) cs
    | none => if Text.isBlank c then readSpan total .ahead cs else .error .malformed
  | .inNumber _, [] => .error .malformed
  | .inNumber n, c :: cs =>
    match digit? c with
    | some d => (orMalformed (pushDigit? n d)).bind fun n => readSpan total (.inNumber n) cs
    | none =>
      if Text.isBlank c then readSpan total (.inNumber n) cs
      else if isUnitChar c then readSpan total (.inUnit n none [c]) cs
      else if c = '.' then readSpan total (.inFraction n ⟨0, 1⟩) cs
      else .error .malformed
  | .inFraction _ _, [] => .error .malformed
  | .inFraction n f, c :: cs =>
    match digit? c with
    | some d => (orMalformed (f.push? d)).bind fun f => readSpan total (.inFraction n f) cs
    | none =>
      if Text.isBlank c then readSpan total (.inFraction n f) cs
      else if isUnitChar c ∧ f.denominator ≠ 1 then readSpan total (.inUnit n (some f) [c]) cs
      else .error .malformed
  | .inUnit n f name, [] => addItem total n f name.reverse
  | .inUnit n f name, c :: cs =>
    match digit? c with
    | some d => (addItem total n f name.reverse).bind fun total => readSpan total (.inNumber d) cs
    | none =>
      if Text.isBlank c then
        (addItem total n f name.reverse).bind fun total => readSpan total .ahead cs
      else if isUnitChar c then readSpan total (.inUnit n f (c :: name)) cs
      else .error .malformed

/-- The duration that a span stands for. A lone zero needs no unit, an empty text is no span. -/
def ofSpan (text : String) : Except ReadFault Duration :=
  if text = "0" then .ok zero
  else if text.toList.all Text.isBlank then .error .malformed
  else readSpan zero .ahead text.toList

/-! ## Writing -/

/-- A count and its unit, nothing if the count is zero. -/
def item (count : Nat) (unit : String) : List String :=
  if count = 0 then [] else [s!"{count}{unit}"]

/-- A count and its unit, with an ending for more than one. -/
def itemPlural (count : Nat) (unit : String) : List String :=
  item count (if count = 1 then unit else unit ++ "s")

/-- The items of a span, the longest unit first. -/
def spanItems (d : Duration) : List String :=
  let s := d.seconds
  let inYear := s % 31557600
  let inMonth := inYear % 2630016
  let inDay := inMonth % 86400
  let n := d.subsecNanos
  itemPlural (s / 31557600) "year" ++ itemPlural (inYear / 2630016) "month" ++
    itemPlural (inMonth / 86400) "day" ++ item (inDay / 3600) "h" ++
    item (inDay % 3600 / 60) "m" ++ item (inDay % 60) "s" ++ item (n / 1000000) "ms" ++
    item (n / 1000 % 1000) "us" ++ item (n % 1000) "ns"

/-- The span of a duration. -/
def span (d : Duration) : String :=
  if d.nanos = 0 then "0s" else " ".intercalate d.spanItems

end HybridAccess.Duration
