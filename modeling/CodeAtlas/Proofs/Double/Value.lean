import CodeAtlas.Proofs.Double.Rounding

/-!
# The values of unpacked floats

Results are rounded in two steps: the mantissa is shifted to its place, and two further bits keep
track of what is lost, which suffices to find the nearest even mantissa. What comes out stands for
the rounded fraction, in the one form that this fraction has.
-/

namespace CodeAtlas.Double

open Float.Model
open Float.Model.UnpackedFloat

/-! ### The bits behind the mantissa -/

/-- The mantissa is the whole part of a fraction, and the two bits tell where between zero, one half
and one the rest lies. -/
structure Tracks (em : ExtendedMantissa) (x : ℚ) : Prop where
  whole : ⌊x⌋ = em.mantissa
  half : em.roundBit = true ↔ 1 / 2 ≤ Int.fract x
  rest : em.stickyBit = true ↔ Int.fract x ≠ 0 ∧ Int.fract x ≠ 1 / 2

namespace Tracks

variable {em : ExtendedMantissa} {x : ℚ}

/-- A fraction that is kept track of is not negative. -/
theorem nonneg (h : Tracks em x) : 0 ≤ x := by
  have whole : (0 : ℤ) ≤ ⌊x⌋ := by
    rw [h.whole]
    exact Int.natCast_nonneg _
  exact Int.floor_nonneg.mp whole

theorem floor_half (h : Tracks em x) : ⌊x / 2⌋ = (em.mantissa / 2 : ℕ) := by
  have parts : x = em.mantissa + Int.fract x := by
    rw [← Int.cast_natCast, ← h.whole, Int.floor_add_fract]
  have low : 0 ≤ Int.fract x := Int.fract_nonneg x
  have high : Int.fract x < 1 := Int.fract_lt_one x
  have halves : (em.mantissa : ℚ) = 2 * (em.mantissa / 2 : ℕ) + (em.mantissa % 2 : ℕ) := by
    exact_mod_cast (Nat.div_add_mod em.mantissa 2).symm
  rw [Int.floor_eq_iff, Int.cast_natCast]
  rcases Nat.mod_two_eq_zero_or_one em.mantissa with even | odd
  · rw [even, Nat.cast_zero] at halves
    constructor <;> linarith
  · rw [odd, Nat.cast_one] at halves
    constructor <;> linarith

theorem fract_half (h : Tracks em x) :
    Int.fract (x / 2) = ((em.mantissa % 2 : ℕ) + Int.fract x) / 2 := by
  have parts : x = em.mantissa + Int.fract x := by
    rw [← Int.cast_natCast, ← h.whole, Int.floor_add_fract]
  have halves : (em.mantissa : ℚ) = 2 * (em.mantissa / 2 : ℕ) + (em.mantissa % 2 : ℕ) := by
    exact_mod_cast (Nat.div_add_mod em.mantissa 2).symm
  rw [Int.fract, h.floor_half, Int.cast_natCast]
  linarith

/-- The last bit remembers whether anything has been lost. -/
theorem stickyBit_shiftRightOne (h : Tracks em x) :
    em.shiftRightOne.stickyBit = true ↔ Int.fract x ≠ 0 := by
  rw [ExtendedMantissa.shiftRightOne, Bool.or_eq_true, h.half, h.rest]
  constructor
  · rintro (half | ⟨positive, -⟩)
    · linarith
    · exact positive
  · intro positive
    by_cases middle : Int.fract x = 1 / 2
    · exact .inl middle.ge
    · exact .inr ⟨positive, middle⟩

/-- The bit that is shifted out tells whether the rest is one half or more. -/
theorem half_shiftRightOne (h : Tracks em x) :
    em.shiftRightOne.roundBit = true ↔ 1 / 2 ≤ Int.fract (x / 2) := by
  have low : 0 ≤ Int.fract x := Int.fract_nonneg x
  have high : Int.fract x < 1 := Int.fract_lt_one x
  rw [h.fract_half]
  rcases Nat.mod_two_eq_zero_or_one em.mantissa with even | odd
  · simp only [ExtendedMantissa.shiftRightOne, even]
    constructor
    · intro absurd
      simp at absurd
    · intro more
      rw [Nat.cast_zero] at more
      linarith
  · simp only [ExtendedMantissa.shiftRightOne, odd]
    constructor
    · intro _
      rw [Nat.cast_one]
      linarith
    · intro _
      rfl

/-- The last bit tells whether the rest is neither zero nor one half. -/
theorem rest_shiftRightOne (h : Tracks em x) :
    em.shiftRightOne.stickyBit = true ↔ Int.fract (x / 2) ≠ 0 ∧ Int.fract (x / 2) ≠ 1 / 2 := by
  have low : 0 ≤ Int.fract x := Int.fract_nonneg x
  have high : Int.fract x < 1 := Int.fract_lt_one x
  rw [h.stickyBit_shiftRightOne, h.fract_half]
  rcases Nat.mod_two_eq_zero_or_one em.mantissa with even | odd
  · rw [even, Nat.cast_zero]
    constructor
    · intro positive
      constructor
      · intro zero
        exact positive (by linarith)
      · intro half
        linarith
    · rintro ⟨positive, -⟩ zero
      exact positive (by rw [zero]; norm_num)
  · rw [odd, Nat.cast_one]
    constructor
    · intro positive
      constructor
      · intro zero
        linarith
      · intro half
        exact positive (by linarith)
    · rintro ⟨-, different⟩ zero
      exact different (by rw [zero]; norm_num)

/-- Shifting by one place halves the fraction. -/
theorem shiftRightOne (h : Tracks em x) : Tracks em.shiftRightOne (x / 2) :=
  ⟨h.floor_half, h.half_shiftRightOne, h.rest_shiftRightOne⟩

/-- Shifting by some places divides the fraction by a power of two. -/
theorem shiftRight (h : Tracks em x) (n : ℕ) : Tracks (em >>> n) (x / 2 ^ n) := by
  induction n with
  | zero =>
    have same : em >>> 0 = em := rfl
    simpa [same] using h
  | succ n ih =>
    have shifted : em >>> (n + 1) = (em >>> n).shiftRightOne := rfl
    rw [shifted, pow_succ, ← div_div]
    exact ih.shiftRightOne

/-- The bits suffice for rounding to the nearest even mantissa. -/
theorem roundedMantissa (h : Tracks em x) : (em.roundedMantissa : ℤ) = nearestEven x := by
  obtain ⟨m, r, s⟩ := em
  have whole : ⌊x⌋ = m := h.whole
  have half := h.half
  have rest := h.rest
  unfold nearestEven
  rw [whole]
  cases r with
  | false =>
    have below : Int.fract x < 1 / 2 := not_le.mp fun more => by simpa using half.mpr more
    rw [if_pos below]
    cases s <;> rfl
  | true =>
    have above : 1 / 2 ≤ Int.fract x := half.mp rfl
    rw [if_neg (not_lt.mpr above)]
    cases s with
    | false =>
      have middle : Int.fract x = 1 / 2 := by
        by_contra different
        have positive : Int.fract x ≠ 0 := by linarith
        simpa using rest.mpr ⟨positive, different⟩
      rw [if_neg (by rw [middle]; exact lt_irrefl _)]
      simp [ExtendedMantissa.roundedMantissa, ExtendedMantissa.accuracy,
        Accuracy.roundToNearestEven]
    | true =>
      have different : Int.fract x ≠ 1 / 2 := (rest.mp rfl).2
      rw [if_pos (lt_of_le_of_ne above (Ne.symm different))]
      simp [ExtendedMantissa.roundedMantissa, ExtendedMantissa.accuracy,
        Accuracy.roundToNearestEven]

theorem exact (m : ℕ) : Tracks (.ofMantissaAndAccuracy m .exact) m := by
  constructor <;> simp [ExtendedMantissa.ofMantissaAndAccuracy]

/-- Of a quotient the two bits tell how the remainder compares to zero and half the divisor. -/
theorem of_remainder {n d : ℕ} (positive : 0 < d) (whole : em.mantissa = n / d)
    (half : em.roundBit = true ↔ d ≤ 2 * (n % d))
    (rest : em.stickyBit = true ↔ n % d ≠ 0 ∧ 2 * (n % d) ≠ d) : Tracks em (n / d : ℚ) := by
  have den : (0 : ℚ) < d := by exact_mod_cast positive
  have fract : Int.fract (n / d : ℚ) = (n % d : ℕ) / d := Int.fract_div_natCast_eq_div_natCast_mod
  constructor
  · rw [Rat.floor_natCast_div_natCast, whole, Int.natCast_div]
  · rw [half, fract, div_le_div_iff₀ two_pos den, one_mul, mul_comm]
    exact_mod_cast Iff.rfl
  · have zero : Int.fract (n / d : ℚ) = 0 ↔ n % d = 0 := by
      rw [fract, div_eq_zero_iff, Nat.cast_eq_zero, Nat.cast_eq_zero]
      omega
    have middle : Int.fract (n / d : ℚ) = 1 / 2 ↔ 2 * (n % d) = d := by
      rw [fract, div_eq_div_iff den.ne' two_ne_zero, one_mul, mul_comm]
      exact_mod_cast Iff.rfl
    exact rest.trans (and_congr zero.not.symm middle.not.symm)

/-- The quotient of two numbers and how much of it is lost. -/
theorem quotient (n : ℕ) {d : ℕ} (positive : 0 < d) :
    Tracks (.ofMantissaAndAccuracy (n / d) (accuracyOfFraction (n % d) d)) (n / d : ℚ) := by
  unfold accuracyOfFraction
  split
  · next none =>
    refine of_remainder positive rfl ?_ ?_
    · simp [ExtendedMantissa.ofMantissaAndAccuracy, none, positive.ne']
    · simp [ExtendedMantissa.ofMantissaAndAccuracy, none]
  · next some =>
    cases order : compare (2 * (n % d)) d with
    | lt =>
      have less : 2 * (n % d) < d := compare_lt_iff_lt.mp order
      refine of_remainder positive rfl ?_ ?_
      · simpa [ExtendedMantissa.ofMantissaAndAccuracy] using less
      · simp [ExtendedMantissa.ofMantissaAndAccuracy, some, less.ne]
    | eq =>
      have same : 2 * (n % d) = d := compare_eq_iff_eq.mp order
      refine of_remainder positive rfl ?_ ?_
      · simp [ExtendedMantissa.ofMantissaAndAccuracy, same]
      · simp [ExtendedMantissa.ofMantissaAndAccuracy, same]
    | gt =>
      have more : d < 2 * (n % d) := compare_gt_iff_gt.mp order
      refine of_remainder positive rfl ?_ ?_
      · simpa [ExtendedMantissa.ofMantissaAndAccuracy] using more.le
      · simp [ExtendedMantissa.ofMantissaAndAccuracy, some, more.ne']

end Tracks

/-! ### Rounded results -/

/-- An unpacked float in the form that a double can have, but for the size of its exponent, and the
fraction that it stands for, which is not negative. -/
inductive Stands : UnpackedFloat → ℚ → Prop where
  | zero (s : Sign) : Stands (.zero s) 0
  | finite {m : ℕ} {e : ℤ} (positive : 0 < m) : m < 2 ^ 53 → -1074 ≤ e →
      (e = -1074 ∨ 2 ^ 52 ≤ m) → Stands (.finite .positive m e positive) (m * 2 ^ e)

/-- The exponent of a double whose leading digit has the given place. -/
theorem targetExponent_eq (total : ℤ) :
    Format.binary64.targetExponent total = max (total - 53) (-1074) := by
  rfl

/-- The leading digit of a fraction of which the mantissa is known. -/
theorem log_of_tracks {m : ℕ} {acc : Accuracy} {x : ℚ} (e : ℤ) (positive : 0 < m)
    (h : Tracks (.ofMantissaAndAccuracy m acc) x) : Int.log 2 (x * 2 ^ e) = m.log2 + e := by
  have mantissa : ⌊x⌋ = m := by
    rw [h.whole]
    cases acc with
    | exact => rfl
    | inexact o => cases o <;> rfl
  obtain ⟨low, high⟩ := Int.floor_eq_iff.mp mantissa
  rw [Int.cast_natCast] at low high
  have lower : (2 : ℚ) ^ m.log2 ≤ x := by
    have digits : 2 ^ m.log2 ≤ m := Nat.log2_self_le positive.ne'
    calc (2 : ℚ) ^ m.log2 = (2 ^ m.log2 : ℕ) := by norm_num
      _ ≤ m := by exact_mod_cast digits
      _ ≤ x := low
  have upper : x < (2 : ℚ) ^ (m.log2 + 1) := by
    have digits : m + 1 ≤ 2 ^ (m.log2 + 1) := Nat.lt_log2_self
    calc x < m + 1 := high
      _ = (m + 1 : ℕ) := by push_cast; rfl
      _ ≤ (2 ^ (m.log2 + 1) : ℕ) := by exact_mod_cast digits
      _ = 2 ^ (m.log2 + 1) := by norm_num
  have value : 0 < x * 2 ^ e := by
    have : 0 < x := lt_of_lt_of_le (by positivity) lower
    positivity
  have above : ((2 : ℕ) : ℚ) ^ (m.log2 + e : ℤ) ≤ x * 2 ^ e := by
    rw [Nat.cast_ofNat, zpow_add₀ two_ne_zero, zpow_natCast]
    gcongr
  have below : x * 2 ^ e < ((2 : ℕ) : ℚ) ^ (m.log2 + e + 1 : ℤ) := by
    have order : (m.log2 + e + 1 : ℤ) = (m.log2 + 1 : ℕ) + e := by
      push_cast
      ring
    rw [Nat.cast_ofNat, order, zpow_add₀ two_ne_zero, zpow_natCast]
    gcongr
  have first := (Int.zpow_le_iff_le_log (by norm_num : 1 < 2) value).mp above
  have second := (Int.lt_zpow_iff_log_lt (by norm_num : 1 < 2) value).mp below
  omega

section Rounding

variable {m : ℕ} {e : ℤ} {acc : Accuracy} {x : ℚ}

/-- The mantissa is shifted to the place to which its fraction is rounded. -/
theorem target_eq_place (h : Tracks (.ofMantissaAndAccuracy m acc) x) (positive : 0 < x)
    (enough : 2 ^ 52 ≤ m ∨ e ≤ -1074) :
    Format.binary64.targetExponent (totalExponent m e) = place (x * 2 ^ e) ∧
      e ≤ place (x * 2 ^ e) := by
  rw [targetExponent_eq, totalExponent, place]
  rcases Nat.eq_zero_or_pos m with rfl | nonzero
  · have low : e ≤ -1074 := by omega
    have small : x < 1 := by
      have floor : ⌊x⌋ = 0 := by
        rw [h.whole]
        cases acc with
        | exact => rfl
        | inexact o => cases o <;> rfl
      exact (Int.floor_eq_zero_iff.mp floor).2
    have value : x * 2 ^ e < ((2 : ℕ) : ℚ) ^ e := by
      rw [Nat.cast_ofNat]
      exact mul_lt_of_lt_one_left (two_zpow_pos e) small
    have log := (Int.lt_zpow_iff_log_lt (by norm_num : 1 < 2)
      (mul_pos positive (two_zpow_pos e))).mp value
    have digits : Nat.log2 0 = 0 := by decide
    omega
  · rw [log_of_tracks e nonzero h]
    have digits : 2 ^ 52 ≤ m → 52 ≤ m.log2 := fun large => (Nat.le_log2 nonzero.ne').mpr large
    omega

/-- What is counted in the place to which it is rounded has at most 53 digits, and as many unless the
place is the least one. -/
theorem div_place_bounds {q : ℚ} (positive : 0 < q) :
    q / 2 ^ place q < (2 ^ 53 : ℤ) ∧ (place q = -1074 ∨ ((2 ^ 52 : ℤ) : ℚ) ≤ q / 2 ^ place q) := by
  have below := Int.lt_zpow_succ_log_self (by norm_num : 1 < 2) q
  have above := Int.zpow_log_le_self (by norm_num : 1 < 2) positive
  rw [Nat.cast_ofNat] at below above
  constructor
  · rw [div_lt_iff₀ (two_zpow_pos _)]
    calc q < 2 ^ (Int.log 2 q + 1) := below
      _ ≤ 2 ^ (53 + place q) := by
        apply zpow_le_zpow_right₀ (by norm_num)
        unfold place
        omega
      _ = (2 ^ 53 : ℤ) * 2 ^ place q := by
        rw [zpow_add₀ two_ne_zero]
        norm_num
  · by_cases least : place q = -1074
    · exact .inl least
    · right
      have normal : place q = Int.log 2 q - 52 := by
        unfold place at least ⊢
        omega
      rw [le_div_iff₀ (two_zpow_pos _)]
      calc ((2 ^ 52 : ℤ) : ℚ) * 2 ^ place q = 2 ^ (52 + place q) := by
            rw [zpow_add₀ two_ne_zero]
            norm_num
        _ = 2 ^ Int.log 2 q := by
          rw [normal]
          congr 1
          omega
        _ ≤ q := above

/-- A mantissa of at most 53 digits stays where it is. -/
theorem shift_few {r : ℕ} {t : ℤ} (few : r < 2 ^ 53) (least : -1074 ≤ t) :
    shiftToTargetExponent .binary64 r t .exact = (.ofMantissaAndAccuracy r .exact, t) := by
  have digits : r.log2 ≤ 52 := by
    rcases Nat.eq_zero_or_pos r with rfl | positive
    · decide
    · have := (Nat.log2_lt positive.ne').mpr few
      omega
  have still : (Format.binary64.targetExponent (totalExponent r t) - t).toNat = 0 := by
    rw [targetExponent_eq, totalExponent]
    omega
  rw [shiftToTargetExponent, shiftToExponent, still]
  simp only [Nat.cast_zero, add_zero, Prod.mk.injEq, and_true]
  rfl

/-- A mantissa that was rounded up to a power of two is shifted by one place. -/
theorem shift_full {t : ℤ} (least : -1074 ≤ t) :
    shiftToTargetExponent .binary64 (2 ^ 53) t .exact =
      (.ofMantissaAndAccuracy (2 ^ 52) .exact, t + 1) := by
  have digits : Nat.log2 (2 ^ 53) = 53 := Nat.log2_two_pow
  have one : (Format.binary64.targetExponent (totalExponent (2 ^ 53) t) - t).toNat = 1 := by
    rw [targetExponent_eq, totalExponent, digits]
    omega
  rw [shiftToTargetExponent, shiftToExponent, one]
  rfl

/-- A rounded mantissa and its exponent make a float in the right form. -/
theorem rounded_stands {r : ℕ} {t : ℤ} (few : r ≤ 2 ^ 53) (least : -1074 ≤ t)
    (normal : t = -1074 ∨ 2 ^ 52 ≤ r) {em : ExtendedMantissa} {e : ℤ}
    (shifted : shiftToTargetExponent .binary64 r t .exact = (em, e)) :
    Stands (if h : em.mantissa = 0 then .zero .positive
      else .finite .positive em.mantissa e (Nat.pos_of_ne_zero h)) (r * 2 ^ t) := by
  rcases few.lt_or_eq with less | rfl
  · rw [shift_few less least] at shifted
    obtain ⟨rfl, rfl⟩ := Prod.mk.inj shifted
    by_cases zero : (ExtendedMantissa.ofMantissaAndAccuracy r .exact).mantissa = 0
    · have none : r = 0 := zero
      rw [dif_pos zero, none, Nat.cast_zero, zero_mul]
      exact .zero _
    · rw [dif_neg zero]
      exact .finite (Nat.pos_of_ne_zero zero) less least normal
  · rw [shift_full least] at shifted
    obtain ⟨rfl, rfl⟩ := Prod.mk.inj shifted
    have value : (((2 ^ 53 : ℕ) : ℚ) * 2 ^ t) = ((2 ^ 52 : ℕ) : ℚ) * 2 ^ (t + 1) := by
      rw [zpow_add_one₀ two_ne_zero]
      push_cast
      ring
    rw [value]
    exact Stands.finite (m := 2 ^ 52) (by norm_num) (by norm_num) (by omega) (.inr le_rfl)

/-- Rounding with a mantissa that has enough digits gives the nearest fraction. -/
theorem roundWithAccuracy_stands (h : Tracks (.ofMantissaAndAccuracy m acc) x) (positive : 0 < x)
    (enough : 2 ^ 52 ≤ m ∨ e ≤ -1074) :
    Stands (roundWithAccuracy .binary64 .positive m e acc) (nearest (x * 2 ^ e)) := by
  obtain ⟨target, low⟩ := target_eq_place h positive enough
  have value : 0 < x * 2 ^ e := mul_pos positive (two_zpow_pos e)
  obtain ⟨below, above⟩ := div_place_bounds value
  have least : -1074 ≤ place (x * 2 ^ e) := le_max_right _ _
  -- the first shift brings the mantissa to its place
  have shift : e + ((place (x * 2 ^ e) - e).toNat : ℤ) = place (x * 2 ^ e) := by omega
  have tracked := h.shiftRight (place (x * 2 ^ e) - e).toNat
  have scaled : x / 2 ^ (place (x * 2 ^ e) - e).toNat = x * 2 ^ e / 2 ^ place (x * 2 ^ e) := by
    rw [div_eq_div_iff (by positivity) (two_zpow_pos _).ne', mul_assoc, ← zpow_natCast,
      ← zpow_add₀ two_ne_zero, shift]
  rw [scaled] at tracked
  obtain ⟨r, rounded⟩ : ∃ r, r = (ExtendedMantissa.ofMantissaAndAccuracy m acc >>>
    (place (x * 2 ^ e) - e).toNat).roundedMantissa := ⟨_, rfl⟩
  have nearestWhole := tracked.roundedMantissa
  rw [← rounded] at nearestWhole
  have few : r ≤ 2 ^ 53 := by
    have := nearestEven_mono below.le
    rw [nearestEven_intCast, ← nearestWhole] at this
    exact_mod_cast this
  have normal : place (x * 2 ^ e) = -1074 ∨ 2 ^ 52 ≤ r := by
    refine above.imp_right fun more => ?_
    have := nearestEven_mono more
    rw [nearestEven_intCast, ← nearestWhole] at this
    exact_mod_cast this
  have result : nearest (x * 2 ^ e) = r * 2 ^ place (x * 2 ^ e) := by
    rw [nearest, ← nearestWhole, Int.cast_natCast]
  rw [result]
  unfold roundWithAccuracy
  rw [shiftToTargetExponent, shiftToExponent, target, shift]
  subst rounded
  exact rounded_stands few least normal rfl

end Rounding

end CodeAtlas.Double
