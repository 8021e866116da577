/-
  HybridAccess — lengths of time.

  A duration is a whole number of nanoseconds. Clock readings are durations
  too, counted from the start of the clock. Subtraction stops at zero. A sum
  is only formed up to `Duration.limit`, the first duration whose seconds need
  more than sixty-four bits (`add?`), and the clock only goes up to
  `Duration.clockLimit` (`moment`).

  `short` is the text of a duration in log messages: one unit, the exact
  decimal fraction, no trailing zeros.
-/
import HybridAccess.Halt

namespace HybridAccess

/-- A length of time in nanoseconds. -/
@[ext] structure Duration where
  nanos : Nat
deriving DecidableEq, Repr, Inhabited

namespace Duration

/-- Nanoseconds in a second. -/
def second : Nat := 1000000000

/-- No time at all. -/
def zero : Duration := ⟨0⟩

/-- A duration of whole seconds and the nanoseconds beyond them. -/
def ofParts (seconds nanos : Nat) : Duration := ⟨seconds * second + nanos⟩

/-- A duration of whole seconds. -/
def ofSeconds (n : Nat) : Duration := ⟨n * second⟩

/-- A duration of whole milliseconds. -/
def ofMillis (n : Nat) : Duration := ⟨n * 1000000⟩

/-- The whole seconds of a duration. -/
def seconds (d : Duration) : Nat := d.nanos / second

/-- The nanoseconds beyond the whole seconds. -/
def subsecNanos (d : Duration) : Nat := d.nanos % second

/-- The whole milliseconds beyond the whole seconds. -/
def subsecMillis (d : Duration) : Nat := d.subsecNanos / 1000000

instance : LE Duration := ⟨fun a b => a.nanos ≤ b.nanos⟩
instance : LT Duration := ⟨fun a b => a.nanos < b.nanos⟩
instance (a b : Duration) : Decidable (a ≤ b) := inferInstanceAs (Decidable (a.nanos ≤ b.nanos))
instance (a b : Duration) : Decidable (a < b) := inferInstanceAs (Decidable (a.nanos < b.nanos))

theorem le_def {a b : Duration} : a ≤ b ↔ a.nanos ≤ b.nanos := Iff.rfl

theorem lt_def {a b : Duration} : a < b ↔ a.nanos < b.nanos := Iff.rfl

/-- The time from `b` to `a`, none if `a` comes first. -/
def since (a b : Duration) : Duration := ⟨a.nanos - b.nanos⟩

@[simp] theorem nanos_since (a b : Duration) : (a.since b).nanos = a.nanos - b.nanos := rfl

/-- The distance of two durations, whichever is longer. -/
def distance (a b : Duration) : Duration := ⟨(a.nanos - b.nanos) + (b.nanos - a.nanos)⟩

/-- The shorter of two durations. -/
def min (a b : Duration) : Duration := if a ≤ b then a else b

/-- The first duration that is not represented: its seconds are two to the power sixty-four. -/
def limit : Duration := ofSeconds UInt64.size

/-- The sum of two durations, if it is represented. -/
def add? (a b : Duration) : Except Halt Duration :=
  if a.nanos + b.nanos < limit.nanos then .ok ⟨a.nanos + b.nanos⟩ else .error .durationSum

/-- The first reading that the clock cannot show: its seconds have a sign and sixty-four bits, and the
clock was started before. -/
def clockLimit : Duration := ofSeconds (UInt64.size / 2 - 1)

/-- The reading of the clock when some time has passed since its start. -/
def moment (d : Duration) : Except Halt Duration :=
  if d < clockLimit then .ok d else .error .moment

theorem seconds_ofParts {s n : Nat} (h : n < second) : (ofParts s n).seconds = s := by
  simp only [seconds, ofParts, second] at *; omega

theorem subsecNanos_ofParts {s n : Nat} (h : n < second) : (ofParts s n).subsecNanos = n := by
  simp only [subsecNanos, ofParts, second] at *; omega

/-! ## Text -/

/-- The decimal digits of `part`, filled up with zeros to `width`, without trailing zeros. -/
def fraction (width part : Nat) : List Char :=
  let ds := Nat.toDigits 10 part
  ((List.replicate (width - ds.length) '0' ++ ds).reverse.dropWhile (· = '0')).reverse

/-- A whole number of units and a fraction of `width` digits. -/
def inUnit (whole width part : Nat) (unit : String) : String :=
  if part = 0 then s!"{whole}{unit}"
  else s!"{whole}." ++ String.ofList (fraction width part) ++ unit

/-- The duration in the largest unit of which it holds at least one, with an exact decimal
fraction. -/
def short (d : Duration) : String :=
  let n := d.subsecNanos
  if 0 < d.seconds then inUnit d.seconds 9 n "s"
  else if 1000000 ≤ n then inUnit (n / 1000000) 6 (n % 1000000) "ms"
  else if 1000 ≤ n then inUnit (n / 1000) 3 (n % 1000) "µs"
  else inUnit n 0 0 "ns"

end Duration

end HybridAccess
