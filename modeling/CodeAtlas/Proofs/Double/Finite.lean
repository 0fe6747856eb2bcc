import CodeAtlas.Proofs.Double.Quotient
import CodeAtlas.Proofs.Double.Sums

/-!
# Finite doubles

A whole number that is far from being too large is a finite double, and so is its negative.
-/

namespace CodeAtlas.Double

open Float.Model (UnpackedFloat Format)
open Float.Model.UnpackedFloat

/-- Whether a packed number is finite is told by its exponent. -/
theorem isFinite_packed (s : Sign) (e : BitVec 11) (m : BitVec 52) :
    (unpack .binary64 (packComponents .binary64 s e m)).isFinite = decide (e ≠ -1#11) := by
  unfold unpack
  simp only [unpackMantissa_packComponents, unpackExponent_packComponents, sign_of_packed]
  by_cases most : e = -1#11
  · rw [if_pos most, decide_eq_false (not_not_intro most)]
    split <;> rfl
  · rw [if_neg most, decide_eq_true most]
    split
    · split <;> rfl
    · rfl

/-- The sign does not matter. -/
theorem isFinite_pack_neg (u : UnpackedFloat) :
    (unpack .binary64 (pack .binary64 u.neg)).isFinite =
      (unpack .binary64 (pack .binary64 u)).isFinite := by
  cases u with
  | notANumber => rfl
  | infinity s => simp only [UnpackedFloat.neg, pack, unpack_infinity]; rfl
  | zero s => simp only [UnpackedFloat.neg, pack, unpack_zero]; rfl
  | finite s m e positive =>
    simp only [UnpackedFloat.neg, pack]
    split
    · simp only [unpack_infinity]
      rfl
    · split
      · exact (isFinite_packed _ _ _).trans (isFinite_packed _ _ _).symm
      · exact (isFinite_packed _ _ _).trans (isFinite_packed _ _ _).symm

theorem Denotes.isFinite_neg {x : Float} {q : ℚ} (h : Denotes x q) (small : q < limit) :
    (-x).isFinite = true := by
  have kept := unpack_pack h
  rw [if_pos small] at kept
  calc (-x).isFinite
    _ = (unpack .binary64 (pack .binary64 x.toModel.unpack.neg)).isFinite := rfl
    _ = (unpack .binary64 (pack .binary64 x.toModel.unpack)).isFinite := isFinite_pack_neg _
    _ = x.toModel.unpack.isFinite := by rw [kept]
    _ = true := h.isFinite

theorem isFinite_ofNat {n : ℕ} (small : n ≤ 2 ^ 64) :
    (Float.ofNat n).isFinite = true ∧ (-Float.ofNat n).isFinite = true := by
  have bound : (n : ℚ) ≤ 2 ^ (1023 : ℤ) := by
    calc (n : ℚ) ≤ 2 ^ (64 : ℤ) := by exact_mod_cast small
      _ ≤ 2 ^ (1023 : ℤ) := by gcongr <;> norm_num
  have limited := nearest_lt_limit n.cast_nonneg bound
  have denotes := (ofNat_rounds n).denotes limited
  exact ⟨denotes.isFinite, denotes.isFinite_neg limited⟩

end CodeAtlas.Double
