import Mathlib.Algebra.Order.Field.Power
import Mathlib.Data.Int.Log
import Mathlib.Data.Rat.Floor
import Mathlib.Tactic.Linarith
import Mathlib.Tactic.FieldSimp
import Mathlib.Tactic.Positivity
import Mathlib.Tactic.Ring
import Mathlib.Tactic.NormNum

/-!
# Rounding to doubles

A fraction is rounded to the nearest multiple of a power of two, of two equally near ones to the
even multiple. The power is that of the last of 53 binary places, but not less than the least one
that doubles have. Rounding keeps the order, and it keeps every fraction that has few enough places.
-/

namespace CodeAtlas.Double

/-! ### Whole numbers -/

/-- The nearest whole number, of two equally near ones the even one. -/
def nearestEven (x : ℚ) : ℤ :=
  if Int.fract x < 1 / 2 then ⌊x⌋
  else if 1 / 2 < Int.fract x then ⌊x⌋ + 1
  else ⌊x⌋ + ⌊x⌋ % 2

theorem nearestEven_bounds (x : ℚ) : ⌊x⌋ ≤ nearestEven x ∧ nearestEven x ≤ ⌊x⌋ + 1 := by
  unfold nearestEven
  split_ifs <;> omega

@[simp] theorem nearestEven_intCast (n : ℤ) : nearestEven n = n := by
  simp [nearestEven]

theorem nearestEven_mono {x y : ℚ} (h : x ≤ y) : nearestEven x ≤ nearestEven y := by
  rcases (Int.floor_le_floor h).lt_or_eq with less | same
  · have below := (nearestEven_bounds x).2
    have above := (nearestEven_bounds y).1
    omega
  · have parts : Int.fract x ≤ Int.fract y := by
      have hx := Int.floor_add_fract x
      have hy := Int.floor_add_fract y
      rw [same] at hx
      linarith
    have bounds := nearestEven_bounds y
    rcases lt_trichotomy (Int.fract x) (1 / 2) with low | middle | high
    · rw [nearestEven, if_pos low, same]
      exact bounds.1
    · have notLow : ¬ Int.fract y < 1 / 2 := by linarith
      rw [nearestEven, nearestEven, if_neg middle.not_lt, if_neg middle.not_gt, if_neg notLow, same]
      split_ifs <;> omega
    · have high' : 1 / 2 < Int.fract y := high.trans_le parts
      rw [nearestEven, nearestEven, if_neg high.not_gt, if_pos high, if_neg high'.not_gt,
        if_pos high', same]

/-- Up to one half beyond an even number that number is the nearest one. -/
theorem nearestEven_even_add {n : ℤ} (even : n % 2 = 0) {x : ℚ} (low : 0 ≤ x) (high : x ≤ 1 / 2) :
    nearestEven (n + x) = n := by
  have fraction : Int.fract (n + x : ℚ) = x := by
    rw [Int.fract_intCast_add, Int.fract_eq_self]
    exact ⟨low, by linarith⟩
  have floor : ⌊(n + x : ℚ)⌋ = n := by
    rw [Int.floor_intCast_add, Int.floor_eq_zero_iff.mpr ⟨low, by linarith⟩, add_zero]
  unfold nearestEven
  rw [fraction, floor]
  split_ifs
  · rfl
  · linarith
  · rw [even, add_zero]

/-! ### Binary places -/

/-- The exponent of the last of 53 binary places, not less than that of the least double. -/
def place (q : ℚ) : ℤ :=
  max (Int.log 2 q - 52) (-1074)

/-- The nearest fraction that a double can have if its exponents are not bounded above. -/
def nearest (q : ℚ) : ℚ :=
  nearestEven (q / 2 ^ place q) * 2 ^ place q

theorem two_zpow_pos (e : ℤ) : (0 : ℚ) < 2 ^ e := by
  positivity

/-- A multiple of a power of two, counted in a lesser power. -/
theorem zpow_div_zpow (n : ℤ) {e f : ℤ} (h : f ≤ e) :
    ∃ k : ℤ, (n * 2 ^ e / 2 ^ f : ℚ) = k := by
  refine ⟨n * 2 ^ (e - f).toNat, ?_⟩
  have split : (2 : ℚ) ^ e = 2 ^ (e - f) * 2 ^ f := by
    rw [← zpow_add₀ two_ne_zero, sub_add_cancel]
  have natural : (2 : ℚ) ^ (e - f) = 2 ^ (e - f).toNat := by
    rw [← zpow_natCast, Int.toNat_of_nonneg (by omega)]
  rw [split, ← mul_assoc, mul_div_assoc, div_self (two_zpow_pos f).ne', mul_one, natural]
  push_cast
  ring

section

variable {p q : ℚ} {n e : ℤ}

/-- What is at most a multiple of a higher place is rounded to no more than that. -/
theorem nearest_le (higher : place q ≤ e) (h : q ≤ n * 2 ^ e) : nearest q ≤ n * 2 ^ e := by
  obtain ⟨k, multiple⟩ := zpow_div_zpow n higher
  have scaled : q / 2 ^ place q ≤ k := by
    rw [← multiple]
    gcongr
  have rounded : nearestEven (q / 2 ^ place q) ≤ k := by
    simpa using nearestEven_mono scaled
  rw [nearest, ← le_div_iff₀ (two_zpow_pos _), multiple]
  exact_mod_cast rounded

/-- What is at least a multiple of a higher place is rounded to no less than that. -/
theorem le_nearest (higher : place q ≤ e) (h : n * 2 ^ e ≤ q) : n * 2 ^ e ≤ nearest q := by
  obtain ⟨k, multiple⟩ := zpow_div_zpow n higher
  have scaled : (k : ℚ) ≤ q / 2 ^ place q := by
    rw [← multiple]
    gcongr
  have rounded : k ≤ nearestEven (q / 2 ^ place q) := by
    simpa using nearestEven_mono scaled
  rw [nearest, ← div_le_iff₀ (two_zpow_pos _), multiple]
  exact_mod_cast rounded

/-- Rounding gives no negative number for one that is not. -/
theorem nearest_nonneg (h : 0 ≤ q) : 0 ≤ nearest q := by
  have zero : ((0 : ℤ) : ℚ) * 2 ^ place q ≤ nearest q := le_nearest le_rfl (by simpa using h)
  simpa using zero

@[simp] theorem nearest_zero : nearest 0 = 0 := by
  simp [nearest, nearestEven]

theorem nearest_mono (nonneg : 0 ≤ p) (h : p ≤ q) : nearest p ≤ nearest q := by
  rcases nonneg.lt_or_eq with positive | rfl
  · have logs : Int.log 2 p ≤ Int.log 2 q := Int.log_mono_right positive h
    by_cases same : place p = place q
    · unfold nearest
      rw [same]
      have whole : nearestEven (p / 2 ^ place q) ≤ nearestEven (q / 2 ^ place q) := by
        apply nearestEven_mono
        gcongr
      gcongr
    · -- there is a power of two between them, and neither is rounded across it
      have less : Int.log 2 p < Int.log 2 q := by
        unfold place at same
        omega
      have below : p ≤ ((1 : ℤ) : ℚ) * 2 ^ Int.log 2 q := by
        have := (Int.lt_zpow_iff_log_lt (by norm_num : 1 < 2) positive).mpr less
        simpa using this.le
      have above : ((1 : ℤ) : ℚ) * 2 ^ Int.log 2 q ≤ q := by
        have := Int.zpow_log_le_self (by norm_num : 1 < 2) (positive.trans_le h)
        simpa using this
      have placeP : place p ≤ Int.log 2 q := by
        unfold place at same ⊢
        omega
      have placeQ : place q ≤ Int.log 2 q := by
        unfold place at same ⊢
        omega
      exact (nearest_le placeP below).trans (le_nearest placeQ above)
  · rw [nearest_zero]
    exact nearest_nonneg h

theorem nearest_eq {m : ℕ} (few : m < 2 ^ 53) (least : -1074 ≤ e) :
    nearest (m * 2 ^ e) = m * 2 ^ e := by
  rcases Nat.eq_zero_or_pos m with rfl | positive
  · simp
  · have value : (0 : ℚ) < m * 2 ^ e := by positivity
    have below : (m * 2 ^ e : ℚ) < 2 ^ (53 + e) := by
      rw [zpow_add₀ two_ne_zero]
      have : (m : ℚ) < 2 ^ (53 : ℤ) := by exact_mod_cast few
      gcongr
    have log : Int.log 2 (m * 2 ^ e : ℚ) < 53 + e :=
      (Int.lt_zpow_iff_log_lt (by norm_num : 1 < 2) value).mp (by exact_mod_cast below)
    have lower : place (m * 2 ^ e : ℚ) ≤ e := by
      unfold place
      omega
    have cast : (m * 2 ^ e : ℚ) = ((m : ℤ) : ℚ) * 2 ^ e := by simp
    apply le_antisymm
    · rw [cast] at lower ⊢
      exact nearest_le lower le_rfl
    · rw [cast] at lower ⊢
      exact le_nearest lower le_rfl

theorem nearest_zpow (least : -1074 ≤ e) : nearest (2 ^ e) = 2 ^ e := by
  have := nearest_eq (m := 1) (by norm_num) least
  simpa using this

/-- What is added to a power of two beyond its last place leaves the places as they are. -/
theorem place_add_small (least : -1022 ≤ e) (nonneg : 0 ≤ q) (small : q ≤ 2 ^ (e - 53)) :
    place (2 ^ e + q) = e - 52 := by
  have less : (2 : ℚ) ^ (e - 53) < 2 ^ e := zpow_lt_zpow_right₀ (by norm_num) (by omega)
  have positive : (0 : ℚ) < 2 ^ e + q := by
    have := two_zpow_pos e
    linarith
  have below : (2 ^ e + q : ℚ) < (2 : ℕ) ^ (e + 1) := by
    rw [Nat.cast_ofNat, zpow_add_one₀ two_ne_zero]
    linarith
  have above : ((2 : ℕ) : ℚ) ^ e ≤ 2 ^ e + q := by
    rw [Nat.cast_ofNat]
    linarith
  have upper := (Int.lt_zpow_iff_log_lt (by norm_num : 1 < 2) positive).mp below
  have lower := (Int.zpow_le_iff_le_log (by norm_num : 1 < 2) positive).mp above
  unfold place
  omega

/-- What is added to a power of two beyond the last place is lost. -/
theorem nearest_add_small (least : -1022 ≤ e) (nonneg : 0 ≤ q) (small : q ≤ 2 ^ (e - 53)) :
    nearest (2 ^ e + q) = 2 ^ e := by
  have whole : (2 : ℚ) ^ e = 2 ^ 52 * 2 ^ (e - 52) := by
    rw [← zpow_natCast, ← zpow_add₀ two_ne_zero]
    congr 1
    omega
  have half : q / 2 ^ (e - 52) ≤ 1 / 2 := by
    rw [div_le_iff₀ (two_zpow_pos _), one_div, ← zpow_neg_one, ← zpow_add₀ two_ne_zero]
    have same : -1 + (e - 52) = e - 53 := by omega
    rwa [same]
  have part : 0 ≤ q / 2 ^ (e - 52) := by positivity
  have scaled : (2 ^ e + q) / 2 ^ (e - 52) = ((2 ^ 52 : ℤ) : ℚ) + q / 2 ^ (e - 52) := by
    rw [add_div, whole, mul_div_assoc, div_self (two_zpow_pos _).ne']
    norm_num
  rw [nearest, place_add_small least nonneg small, scaled,
    nearestEven_even_add (by norm_num) part half, whole]
  norm_num

end

end CodeAtlas.Double
