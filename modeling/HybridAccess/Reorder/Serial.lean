/-
  HybridAccess — sequence numbers that wrap around.

  Sequence numbers have thirty-two bits. `ahead a b` is how far `b` lies ahead
  of `a`, counted upwards and around; `after a b` says that `a` comes after
  `b`, which means that it lies ahead of it by less than half of the circle.
-/

namespace HybridAccess.Reorder

/-- How many steps lead from `a` up to `b`. -/
def ahead (a b : UInt32) : Nat := (b - a).toNat

/-- Half of the circle of sequence numbers, two to the power thirty-one. -/
def halfCircle : Nat := 2147483648

/-- Whether `a` comes after `b` in serial order. -/
def after (a b : UInt32) : Bool :=
  0 < ahead b a && ahead b a < halfCircle

theorem after_iff {a b : UInt32} : after a b = true ↔ 0 < ahead b a ∧ ahead b a < halfCircle := by
  simp [after]

theorem ahead_self (a : UInt32) : ahead a a = 0 := by
  simp [ahead]

theorem ahead_lt (a b : UInt32) : ahead a b < 2 * halfCircle := UInt32.toNat_lt _

/-- The distance leads from `a` to `b`. -/
theorem add_ahead (a b : UInt32) : a + UInt32.ofNat (ahead a b) = b := by
  rw [ahead, UInt32.ofNat_toNat, UInt32.add_comm, UInt32.sub_add_cancel]

end HybridAccess.Reorder
