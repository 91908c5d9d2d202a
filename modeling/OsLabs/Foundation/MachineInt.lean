import Mathlib.Algebra.Group.Int.Defs
import Mathlib.Algebra.Group.Nat.Defs
import Mathlib.Data.Int.Init

/-!
# Signed machine integers

`wrap bits x` is the value that a two's complement integer of the given width holds after an
arithmetic operation with the result `x`.  Values of a counter are compared up to wrapping, and
`wrap_eq_self` turns such a fact into an equation where the value is known to be in range.
-/

/-- The value of an integer of `bits` bits after an operation with the result `x`. -/
def wrap (bits : ℕ) (x : ℤ) : ℤ := Int.bmod x (2 ^ bits)

variable {bits : ℕ} {x y : ℤ}

/-- A sum may be wrapped before or after the next operation. -/
@[simp] lemma wrap_wrap_add : wrap bits (wrap bits x + y) = wrap bits (x + y) := by
  unfold wrap
  exact Int.bmod_add_bmod

/-- A difference may be wrapped before or after the next operation. -/
@[simp] lemma wrap_wrap_sub : wrap bits (wrap bits x - y) = wrap bits (x - y) := by
  unfold wrap
  exact Int.bmod_sub_bmod

/-- The right side of a difference may be wrapped as well. -/
@[simp] lemma wrap_sub_wrap : wrap bits (x - wrap bits y) = wrap bits (x - y) := by
  unfold wrap
  exact Int.sub_bmod_bmod

/-- Equal values stay equal under one more operation. -/
lemma wrap_add_congr (h : wrap bits x = wrap bits y) (z : ℤ) :
    wrap bits (x + z) = wrap bits (y + z) := by
  rw [← wrap_wrap_add, h, wrap_wrap_add]

/-- Zero is kept. -/
@[simp] lemma wrap_zero : wrap bits 0 = 0 := by
  unfold wrap
  exact Int.zero_bmod

/-- A natural number is wrapped to zero exactly when its low bits are zero. -/
lemma wrap_natCast_eq_zero_iff {n : ℕ} : wrap bits n = 0 ↔ n % 2 ^ bits = 0 := by
  unfold wrap
  rw [← Int.dvd_iff_bmod_eq_zero, Int.natCast_dvd_natCast]
  exact Nat.dvd_iff_mod_eq_zero

/-- A value in range is kept. -/
lemma wrap_eq_self (hlo : -((2 ^ bits : ℕ) : ℤ) ≤ x * 2) (hhi : x * 2 < ((2 ^ bits : ℕ) : ℤ)) :
    wrap bits x = x := by
  unfold wrap
  exact Int.bmod_eq_of_le_mul_two hlo hhi
