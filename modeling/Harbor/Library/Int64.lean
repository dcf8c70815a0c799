import Mathlib.Algebra.Order.Ring.Int

/-!
# Machine integers
-/

namespace Harbor.Library

/-- A result of 64-bit arithmetic. -/
def int64 (n : Int) : Int :=
  n.bmod (2 ^ 64)

theorem int64_eq_self {n : Int} (low : -2 ^ 63 ≤ n) (high : n < 2 ^ 63) : int64 n = n := by
  unfold int64
  rw [Int.bmod_def]
  omega

end Harbor.Library
