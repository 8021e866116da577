/-
  HybridAccess — distances between sequence numbers.

  `ahead a` numbers the circle from `a` upwards. Two numbers at the same
  distance are equal (`ahead_inj`), and as long as `a`, `b` and `c` are met in
  this order the distances add up (`ahead_of_le`), whichever of them lies
  behind the point where the numbers wrap around.
-/
import HybridAccess.Reorder.Serial

namespace HybridAccess.Reorder

variable {a b c : UInt32}

theorem ahead_eq (a b : UInt32) :
    ahead a b = (2 * halfCircle - a.toNat + b.toNat) % (2 * halfCircle) :=
  UInt32.toNat_sub b a

theorem ahead_inj : ahead a b = ahead a c ↔ b = c := by
  refine ⟨fun h => ?_, fun h => h ▸ rfl⟩
  rw [← add_ahead a b, h, add_ahead]

theorem ahead_pos : 0 < ahead a b ↔ b ≠ a := by
  have h := ahead_inj (a := a) (b := b) (c := a)
  rw [ahead_self] at h
  rw [Nat.pos_iff_ne_zero, Ne, h]

theorem ahead_add_ofNat {d : Nat} (h : d < 2 * halfCircle) :
    ahead a (a + UInt32.ofNat d) = d := by
  rw [ahead, UInt32.add_comm, UInt32.add_sub_cancel]
  exact UInt32.toNat_ofNat_of_lt' h

theorem ahead_add_one (a : UInt32) : ahead a (a + 1) = 1 :=
  ahead_add_ofNat (d := 1) (by decide)

/-- Three numbers in their order. -/
theorem ahead_of_le (h : ahead a b ≤ ahead a c) : ahead b c = ahead a c - ahead a b := by
  have ha := a.toNat_lt
  have hb := b.toNat_lt
  have hc := c.toNat_lt
  rw [ahead_eq] at h ⊢
  rw [ahead_eq a c] at h ⊢
  rw [ahead_eq a b] at *
  unfold halfCircle at *
  omega

/-- The distance from the number behind `b`. -/
theorem ahead_succ_of_lt (h : ahead a b < ahead a c) :
    ahead (b + 1) c = ahead a c - ahead a b - 1 := by
  have hbc := ahead_of_le (Nat.le_of_lt h)
  have hle : ahead b (b + 1) ≤ ahead b c := by rw [ahead_add_one, hbc]; omega
  rw [ahead_of_le hle, ahead_add_one, hbc]

/-- The way back. -/
theorem ahead_swap (h : a ≠ b) : ahead b a = 2 * halfCircle - ahead a b := by
  have ha := a.toNat_lt
  have hb := b.toNat_lt
  have hne : a.toNat ≠ b.toNat := fun he => h (UInt32.toNat_inj.1 he)
  rw [ahead_eq, ahead_eq]
  unfold halfCircle
  omega

theorem ahead_sub_one (h : 0 < ahead a b) : ahead a (b - 1) = ahead a b - 1 := by
  have hd := ahead_lt a b
  have hb : b - 1 = a + UInt32.ofNat (ahead a b - 1) := by
    have hs : UInt32.ofNat (ahead a b - 1) + 1 = UInt32.ofNat (ahead a b) := by
      rw [← Nat.sub_add_cancel h, UInt32.ofNat_add]; rfl
    rw [UInt32.sub_eq_iff_eq_add, UInt32.add_assoc, hs, add_ahead]
  rw [hb, ahead_add_ofNat (by omega)]

/-- A number does not come after one that lies less than half of the circle ahead of it. -/
theorem not_after_of_ahead_lt (h : ahead a b < halfCircle) : after a b = false := by
  rw [Bool.eq_false_iff, Ne, after_iff]
  rintro ⟨hpos, hlt⟩
  rw [ahead_swap (ahead_pos.1 hpos).symm, halfCircle] at *
  omega

theorem not_after_sub_one (a : UInt32) : after (a - 1) a = false := by
  have h := ahead_add_one (a - 1)
  rw [UInt32.sub_add_cancel] at h
  exact not_after_of_ahead_lt (by rw [h]; decide)

/-- Serial order of two numbers that lie ahead of a third. -/
theorem after_iff_of_lt (h : ahead a b < ahead a c) :
    after c b = true ↔ ahead a c - ahead a b < halfCircle := by
  rw [after_iff, ahead_of_le (Nat.le_of_lt h)]
  omega

end HybridAccess.Reorder
