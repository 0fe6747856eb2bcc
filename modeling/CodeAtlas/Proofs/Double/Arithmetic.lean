import CodeAtlas.Proofs.Double.Value

/-!
# The operations on unpacked floats

Sums, products and quotients of floats that are not negative stand for the nearest fractions to the
exact results.
-/

namespace CodeAtlas.Double

open Float.Model
open Float.Model.UnpackedFloat

namespace Stands

variable {u v : UnpackedFloat} {p q : ℚ}

theorem nonneg (h : Stands u q) : 0 ≤ q := by
  cases h with
  | zero => exact le_rfl
  | finite positive => positivity

theorem nearest_eq (h : Stands u q) : nearest q = q := by
  cases h with
  | zero => exact nearest_zero
  | finite _ few least => exact Double.nearest_eq few least

end Stands

/-! ### Sums -/

section Exponents

variable {m n : ℕ} {e f : ℤ}

theorem decreaseExponent_keeps (m : ℕ) (e t : ℤ) :
    ((decreaseExponent m e t).1 : ℚ) * 2 ^ (decreaseExponent m e t).2 = m * 2 ^ e := by
  have shifted : (e - t).toNat + (e - (e - t).toNat) = e := by omega
  simp only [decreaseExponent]
  rw [Nat.shiftLeft_eq, Nat.cast_mul, mul_assoc]
  congr 1
  rw [Nat.cast_pow, Nat.cast_ofNat, ← zpow_natCast, ← zpow_add₀ two_ne_zero]
  congr 1

/-- The exponent gets no greater than the one that is wanted. -/
theorem exponent_decreaseExponent (m : ℕ) (e t : ℤ) : (decreaseExponent m e t).2 = min e t := by
  simp only [decreaseExponent]
  omega

/-- Rounding a mantissa that is not zero gives the nearest fraction. -/
theorem round_stands (positive : 0 < m) (e : ℤ) :
    Stands (UnpackedFloat.round .binary64 .positive m e) (nearest (m * 2 ^ e)) := by
  obtain ⟨t, target⟩ : ∃ t, t = Format.binary64.targetExponent (totalExponent m e) := ⟨_, rfl⟩
  have value := decreaseExponent_keeps m e t
  have exponent := exponent_decreaseExponent m e t
  have mantissa : (decreaseExponent m e t).1 = m * 2 ^ (e - t).toNat := by
    simp only [decreaseExponent, Nat.shiftLeft_eq]
  have enough : 2 ^ 52 ≤ (decreaseExponent m e t).1 ∨ (decreaseExponent m e t).2 ≤ -1074 := by
    rw [exponent, mantissa]
    rw [targetExponent_eq, totalExponent] at target
    by_cases low : min e t ≤ -1074
    · exact .inr low
    · left
      have digits : 52 ≤ m.log2 + (e - t).toNat := by omega
      calc 2 ^ 52 ≤ 2 ^ (m.log2 + (e - t).toNat) := Nat.pow_le_pow_right (by norm_num) digits
        _ = 2 ^ m.log2 * 2 ^ (e - t).toNat := by rw [pow_add]
        _ ≤ m * 2 ^ (e - t).toNat := Nat.mul_le_mul_right _ (Nat.log2_self_le positive.ne')
  have nonzero : 0 < (decreaseExponent m e t).1 := by
    rw [mantissa]
    positivity
  rw [← value]
  unfold UnpackedFloat.round
  rw [← target]
  exact roundWithAccuracy_stands (Tracks.exact _) (by exact_mod_cast nonzero) enough

end Exponents

namespace Stands

variable {u v : UnpackedFloat} {p q : ℚ}

/-- Sums of floats that are not zero: both mantissas are brought to the lower exponent. -/
theorem add_finite {m n : ℕ} {e f : ℤ} (positive : 0 < m) (positive' : 0 < n) :
    Stands (UnpackedFloat.add .binary64 (.finite .positive m e positive)
      (.finite .positive n f positive')) (nearest (m * 2 ^ e + n * 2 ^ f)) := by
  obtain ⟨t, smaller⟩ : ∃ t, t = min e f := ⟨_, rfl⟩
  have valueM := decreaseExponent_keeps m e t
  have valueN := decreaseExponent_keeps n f t
  rw [exponent_decreaseExponent, min_eq_right (by omega)] at valueM valueN
  have sum : (m * 2 ^ e + n * 2 ^ f : ℚ) =
      ((decreaseExponent m e t).1 + (decreaseExponent n f t).1 : ℕ) * 2 ^ t := by
    rw [← valueM, ← valueN]
    push_cast
    ring
  have nonzero : 0 < (decreaseExponent m e t).1 + (decreaseExponent n f t).1 := by
    have : 0 < (decreaseExponent m e t).1 := by
      simp only [decreaseExponent, Nat.shiftLeft_eq]
      positivity
    omega
  have result : UnpackedFloat.add .binary64 (.finite .positive m e positive)
      (.finite .positive n f positive') =
        UnpackedFloat.round .binary64 .positive
          ((decreaseExponent m e t).1 + (decreaseExponent n f t).1) t := by
    have greater : compare (((decreaseExponent m e t).1 : ℤ) + (decreaseExponent n f t).1) 0 =
        .gt := by
      rw [compare_gt_iff_gt]
      omega
    unfold UnpackedFloat.add
    dsimp only
    simp only [← smaller, Sign.apply, UnpackedFloat.normalize, greater]
    rfl
  rw [sum, result]
  exact round_stands nonzero t

/-- The sum of two floats stands for the nearest fraction to the sum. -/
theorem add (hu : Stands u p) (hv : Stands v q) :
    Stands (UnpackedFloat.add .binary64 u v) (nearest (p + q)) := by
  cases hu with
  | zero s =>
    rw [zero_add, hv.nearest_eq]
    cases hv with
    | zero t =>
      unfold UnpackedFloat.add
      dsimp only
      split <;> exact .zero _
    | finite positive few least normal => exact .finite positive few least normal
  | @finite m e positive few least normal =>
    cases hv with
    | zero t =>
      have kept : Stands (.finite .positive m e positive) (m * 2 ^ e : ℚ) :=
        .finite positive few least normal
      rw [add_zero, kept.nearest_eq]
      exact kept
    | finite positive' => exact add_finite positive positive'

/-- The product of two floats stands for the nearest fraction to the product. -/
theorem mul (hu : Stands u p) (hv : Stands v q) :
    Stands (UnpackedFloat.mul .binary64 u v) (nearest (p * q)) := by
  cases hu with
  | zero s =>
    rw [zero_mul, nearest_zero]
    cases hv <;> exact .zero _
  | @finite m e positive few least normal =>
    cases hv with
    | zero t =>
      rw [mul_zero, nearest_zero]
      exact .zero _
    | @finite n f positive' few' least' normal' =>
      have product : (m * 2 ^ e * (n * 2 ^ f) : ℚ) = ((m * n : ℕ) : ℚ) * 2 ^ (e + f) := by
        rw [zpow_add₀ two_ne_zero]
        push_cast
        ring
      have nonzero : 0 < m * n := Nat.mul_pos positive positive'
      have enough : 2 ^ 52 ≤ m * n ∨ e + f ≤ -1074 := by
        rcases normal with rfl | large
        · rcases normal' with rfl | large
          · right
            omega
          · exact .inl (large.trans (Nat.le_mul_of_pos_left n positive))
        · exact .inl (large.trans (Nat.le_mul_of_pos_right m positive'))
      rw [product]
      exact roundWithAccuracy_stands (Tracks.exact _) (by exact_mod_cast nonzero) enough

/-- A mantissa that is shifted far enough has a quotient of full length. -/
theorem full_quotient {m n s : ℕ} (positive : 0 < m) (positive' : 0 < n)
    (digits : 53 + n.log2 ≤ m.log2 + s) : 2 ^ 52 ≤ m <<< s / n := by
  rw [Nat.le_div_iff_mul_le positive', Nat.shiftLeft_eq]
  calc 2 ^ 52 * n ≤ 2 ^ 52 * 2 ^ (n.log2 + 1) :=
        Nat.mul_le_mul_left _ Nat.lt_log2_self.le
    _ = 2 ^ (53 + n.log2) := by
      rw [← pow_add]
      congr 1
      omega
    _ ≤ 2 ^ (m.log2 + s) := Nat.pow_le_pow_right (by norm_num) digits
    _ = 2 ^ m.log2 * 2 ^ s := by rw [pow_add]
    _ ≤ m * 2 ^ s := Nat.mul_le_mul_right _ (Nat.log2_self_le positive.ne')

/-- Quotients of floats that are not zero. -/
theorem div_finite {m n : ℕ} {e f : ℤ} (positive : 0 < m) (positive' : 0 < n) :
    Stands (UnpackedFloat.div .binary64 (.finite .positive m e positive)
      (.finite .positive n f positive')) (nearest (m * 2 ^ e / (n * 2 ^ f))) := by
  obtain ⟨t, target⟩ : ∃ t, t = min (e - f) (Format.binary64.targetExponent
    (totalExponent m e - totalExponent n f)) := ⟨_, rfl⟩
  obtain ⟨s, shift⟩ : ∃ s, s = (e - f - t).toNat := ⟨_, rfl⟩
  have quotient : (m * 2 ^ e / (n * 2 ^ f) : ℚ) = ((m <<< s : ℕ) / n : ℚ) * 2 ^ t := by
    have exponents : e = s + t + f := by omega
    have : (n : ℚ) ≠ 0 := by exact_mod_cast positive'.ne'
    rw [Nat.shiftLeft_eq, exponents, zpow_add₀ two_ne_zero, zpow_add₀ two_ne_zero,
      zpow_natCast]
    push_cast
    field_simp
  have nonzero : (0 : ℚ) < (m <<< s : ℕ) / n := by
    rw [Nat.shiftLeft_eq]
    positivity
  have enough : 2 ^ 52 ≤ m <<< s / n ∨ t ≤ -1074 := by
    by_cases low : t ≤ -1074
    · exact .inr low
    · rw [targetExponent_eq, totalExponent, totalExponent] at target
      exact .inl (full_quotient positive positive' (by omega))
  have result : UnpackedFloat.div .binary64 (.finite .positive m e positive)
      (.finite .positive n f positive') =
        roundWithAccuracy .binary64 .positive (m <<< s / n) t
          (accuracyOfFraction (m <<< s % n) n) := by
    unfold UnpackedFloat.div
    dsimp only
    simp only [divCore, ← target, ← shift]
    rfl
  rw [quotient, result]
  exact roundWithAccuracy_stands (Tracks.quotient _ positive') nonzero enough

/-- The quotient of two floats stands for the nearest fraction to the quotient. -/
theorem div (hu : Stands u p) (hv : Stands v q) (divisor : 0 < q) :
    Stands (UnpackedFloat.div .binary64 u v) (nearest (p / q)) := by
  cases hv with
  | zero => exact absurd divisor (lt_irrefl 0)
  | finite positive' =>
    cases hu with
    | zero s =>
      rw [zero_div, nearest_zero]
      exact .zero _
    | finite positive => exact div_finite positive positive'

/-- The quotient of a float and infinity stands for zero. -/
theorem div_infinity (hu : Stands u p) :
    Stands (UnpackedFloat.div .binary64 u (.infinity .positive)) 0 := by
  cases hu <;> exact .zero _

/-- The sum of infinity and a float is infinite. -/
theorem infinity_add (hv : Stands v q) :
    UnpackedFloat.add .binary64 (.infinity .positive) v = .infinity .positive := by
  cases hv <;> rfl

theorem add_infinity (hu : Stands u p) :
    UnpackedFloat.add .binary64 u (.infinity .positive) = .infinity .positive := by
  cases hu <;> rfl

/-- The product of a float that is not zero and infinity is infinite. -/
theorem mul_infinity (hu : Stands u p) (positive : 0 < p) :
    UnpackedFloat.mul .binary64 u (.infinity .positive) = .infinity .positive := by
  cases hu with
  | zero => exact absurd positive (lt_irrefl 0)
  | finite => rfl

end Stands

end CodeAtlas.Double
