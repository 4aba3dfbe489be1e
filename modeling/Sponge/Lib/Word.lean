import Mathlib.Algebra.Order.Ring.Nat

namespace Word64

/-- Unsigned 64-bit addition on natural numbers. -/
def add (a b : Nat) : Nat := (a + b) % 2 ^ 64

/-- Unsigned 64-bit subtraction: going below zero wraps round to the top. -/
def sub (a b : Nat) : Nat := (a + (2 ^ 64 - b % 2 ^ 64)) % 2 ^ 64

theorem add_lt (a b : Nat) : add a b < 2 ^ 64 := by
  unfold add
  omega

theorem sub_lt (a b : Nat) : sub a b < 2 ^ 64 := by
  unfold sub
  omega

theorem add_of_lt {a b : Nat} (h : a + b < 2 ^ 64) : add a b = a + b := by
  unfold add
  omega

theorem sub_of_le {a b : Nat} (h : b ≤ a) (ha : a < 2 ^ 64) : sub a b = a - b := by
  unfold sub
  omega

/-- The last position of a nonempty range never exceeds the exact one. -/
theorem sub_add_one_le (a b : Nat) (hb : 1 ≤ b) : sub (add a b) 1 ≤ a + b - 1 := by
  unfold sub add
  omega

/-- The last position of a range that does not start and end at zero. -/
theorem last_eq {a b : Nat} (hlt : a + b < 2 ^ 64) (hpos : 0 < a + b) :
    sub (add a b) 1 = a + b - 1 := by
  rw [add_of_lt hlt, sub_of_le (by omega) hlt]

end Word64
