import CodeAtlas.Proofs.Double.Denotation

/-!
# Quotients of whole numbers

The share that a number has of a greater one lies between zero and one after all roundings, and a
part of a certainty is no greater than all of it.
-/

namespace CodeAtlas.Double

open Float.Model (UnpackedFloat)

theorem zero_denotes : Denotes 0.0 0 := by
  have bits : (0.0 : Float).toModel.unpack = .zero .positive := by rfl
  rw [Denotes, bits]
  exact .zero _

/-- What denotes at most one lies between zero and one. -/
theorem Denotes.inUnit {x : Float} {q : ℚ} (h : Denotes x q) (small : q ≤ 1) : InUnit x := by
  have one : Denotes 1.0 1 := one_denotes
  exact ⟨(zero_denotes.le_iff h).mpr h.nonneg, (h.le_iff one).mpr small⟩

theorem InUnit.denotes {x : Float} (h : InUnit x) : ∃ q, Denotes x q ∧ q ≤ 1 := by
  have one : Denotes 1.0 1 := one_denotes
  obtain ⟨q, found⟩ := exists_denotes h.1 h.2 one
  exact ⟨q, found, (found.le_iff one).mp h.2⟩

/-- A positive whole number is rounded to no less than one. -/
theorem one_le_nearest {n : ℕ} (positive : 0 < n) : 1 ≤ nearest n := by
  have least : (1 : ℚ) ≤ n := by exact_mod_cast positive
  have mono := nearest_mono zero_le_one least
  have one : nearest (1 : ℕ) = 1 := by
    rw [nearest_natCast (by norm_num), Nat.cast_one]
  rw [Nat.cast_one] at one
  rwa [one] at mono

/-- A whole number that is far from being too large is rounded to one that is not. -/
theorem nearest_lt_limit {q : ℚ} (nonneg : 0 ≤ q) (small : q ≤ 2 ^ (1023 : ℤ)) :
    nearest q < limit := by
  have mono := nearest_mono nonneg small
  rw [nearest_zpow (by norm_num)] at mono
  exact mono.trans_lt (zpow_lt_limit (by norm_num))

/-- The share of a number in a greater one lies between zero and one. -/
theorem ratio_inUnit {a b e : ℕ} (part : a ≤ b) (positive : 0 < b) (small : b ≤ 2 ^ e)
    (bound : e ≤ 1023) : InUnit (Float.ofNat a / Float.ofNat b) := by
  have exponent : (e : ℤ) ≤ 1023 := by exact_mod_cast bound
  have whole : (b : ℚ) ≤ 2 ^ (1023 : ℤ) := by
    calc (b : ℚ) ≤ 2 ^ (e : ℤ) := by exact_mod_cast small
      _ ≤ 2 ^ (1023 : ℤ) := by gcongr; norm_num
  have order : (a : ℚ) ≤ b := by exact_mod_cast part
  have denom := (ofNat_rounds b).denotes (nearest_lt_limit b.cast_nonneg whole)
  have num := (ofNat_rounds a).denotes (nearest_lt_limit a.cast_nonneg (order.trans whole))
  have divisor : 0 < nearest b := lt_of_lt_of_le one_pos (one_le_nearest positive)
  have share : nearest a / nearest b ≤ 1 := by
    rw [div_le_one divisor]
    exact nearest_mono a.cast_nonneg order
  have nonneg : 0 ≤ nearest a / nearest b := div_nonneg num.nonneg denom.nonneg
  have rounded : nearest (nearest a / nearest b) ≤ 1 := by
    have mono := nearest_mono nonneg share
    rwa [Stands.nearest_eq one_denotes] at mono
  have fits : nearest (nearest a / nearest b) < limit :=
    rounded.trans_lt (lt_of_eq_of_lt (zpow_zero 2).symm (zpow_lt_limit (by norm_num)))
  exact ((num.div denom divisor).denotes fits).inUnit rounded

theorem Denotes.div_infinity {x y : Float} {p : ℚ} (hx : Denotes x p)
    (infinite : y.toModel.unpack = .infinity .positive) : Denotes (x / y) 0 := by
  have quotient : Stands (UnpackedFloat.div .binary64 x.toModel.unpack y.toModel.unpack)
      (nearest 0) := by
    rw [infinite, nearest_zero]
    exact Stands.div_infinity hx
  have rounded : Rounds (x / y) 0 := rounds_pack quotient
  have found := rounded.denotes (by rw [nearest_zero]; exact two_zpow_pos 1024)
  rwa [nearest_zero] at found

/-- A part of a double is no greater than all of it. -/
theorem div_ofNat_le {x : Float} {p : ℚ} (hx : Denotes x p) (small : p < limit) {n : ℕ}
    (positive : 0 < n) : ∃ q, Denotes (x / Float.ofNat n) q ∧ q ≤ p := by
  rcases ofNat_rounds n with ⟨-, denom⟩ | ⟨-, infinite⟩
  · have divisor : 1 ≤ nearest n := one_le_nearest positive
    have part : p / nearest n ≤ p := div_le_self hx.nonneg divisor
    have rounded : nearest (p / nearest n) ≤ p := by
      have mono := nearest_mono (div_nonneg hx.nonneg denom.nonneg) part
      rwa [Stands.nearest_eq hx] at mono
    have quotient := hx.div denom (lt_of_lt_of_le one_pos divisor)
    exact ⟨_, quotient.denotes (rounded.trans_lt small), rounded⟩
  · exact ⟨0, hx.div_infinity infinite, hx.nonneg⟩

end CodeAtlas.Double
