/-
  HybridAccess — amounts that leave their range.

  In most places an amount cannot leave its range, wraps around or stops at
  the limit. In a few places it may, and then the client stops in the middle
  of what it does (`Halt`). Where something is read, that is one of two
  reasons for not reading it (`ReadFault`).
-/

namespace HybridAccess

/-- Why the client stops in the middle of something. -/
inductive Halt
  /-- The sum of two durations has too many seconds. -/
  | durationSum
  /-- The nanoseconds of a duration make one more second than there is room for. -/
  | durationCarry
  /-- A moment lies beyond what the clock can show. -/
  | moment
  /-- A counter of one byte was full. -/
  | counter
deriving DecidableEq, Repr

/-- The text of a reason to stop. -/
def Halt.message : Halt → String
  | durationSum => "overflow when adding durations"
  | durationCarry => "overflow in Duration::new"
  | moment => "overflow when adding duration to instant"
  | counter => "attempt to add with overflow"

/-- Why something is not read. -/
inductive ReadFault
  /-- It is not what it should be. -/
  | malformed
  /-- An amount left its range on the way. -/
  | halted (reason : Halt)
deriving DecidableEq, Repr

/-- What was read, where nothing was read because it is not what it should be. -/
def ReadFault.orMalformed {α : Type} : Option α → Except ReadFault α
  | some a => .ok a
  | none => .error malformed

@[simp] theorem ReadFault.orMalformed_some {α : Type} (a : α) :
    orMalformed (some a) = .ok a := rfl

@[simp] theorem ReadFault.orMalformed_none {α : Type} :
    orMalformed (none : Option α) = .error malformed := rfl

end HybridAccess
