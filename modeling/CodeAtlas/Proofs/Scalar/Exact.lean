import CodeAtlas.Scalar
import Mathlib.Analysis.SpecialFunctions.Log.Basic

/-!
# Exact arithmetic

The real numbers, with which nothing is rounded.
-/

namespace CodeAtlas

/-- The division of the real numbers; it is found before the one that every scalar has. -/
noncomputable instance divReal : Div ℝ :=
  Real.instDivInvMonoid.toDiv

noncomputable instance : LogScalar ℝ where
  ofNat n := n
  ofDecimal digits places := digits / 10 ^ places
  less a b := decide (a < b)
  isFinite _ := true
  log := Real.log

namespace Scalar

theorem less_iff {a b : ℝ} : less a b = true ↔ a < b :=
  decide_eq_true_iff

theorem ofNat_real (n : Nat) : (ofNat n : ℝ) = n :=
  rfl

theorem zero_real : (zero : ℝ) = 0 :=
  Nat.cast_zero

theorem one_real : (one : ℝ) = 1 :=
  Nat.cast_one

theorem sum_real (xs : List ℝ) : sum xs = xs.sum := by
  rw [sum, zero_real, List.sum_eq_foldl]

end Scalar

end CodeAtlas
