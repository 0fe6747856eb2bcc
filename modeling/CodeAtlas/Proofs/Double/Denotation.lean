import CodeAtlas.Proofs.Double.Arithmetic
import CodeAtlas.Proofs.Double.Order
import Mathlib

/-!
# What doubles denote

A double that is neither negative nor infinite denotes a fraction. Doubles compare as the fractions
that they denote, and the result of an operation denotes the nearest fraction to the exact one, or is
infinite where that is too large.
-/

namespace CodeAtlas.Double

open Float.Model (UnpackedFloat Format)
open Float.Model.UnpackedFloat

/-! ### Packing -/

theorem sign_of_packed (s : Sign) (e : BitVec 11) (m : BitVec 52) :
    Sign.ofBitVec (unpackSign (packComponents .binary64 s e m)) = s := by
  have bit : unpackSign (packComponents .binary64 s e m) = s.toBitVec := by
    ext i hi
    obtain rfl : i = 0 := by omega
    have last : unpackSign (packComponents .binary64 s e m) =
        ((s.toBitVec ++ e) ++ m).extractLsb' 63 1 := by
      unfold unpackSign packComponents BitVec.extractLsb
      rfl
    rw [last, BitVec.getElem_extractLsb', BitVec.getLsbD_append, BitVec.getLsbD_append]
    simp
  rw [bit]
  cases s <;> rfl

/-- The mantissa with its leading digit, which is not among the bits. -/
theorem mantissa_of_packed (m : BitVec 52) : (1#1 ++ m).toNat = 2 ^ 52 + m.toNat := by
  have small := m.isLt
  rw [BitVec.toNat_append, Nat.shiftLeft_eq, Nat.mul_comm, ← Nat.two_pow_add_eq_or_of_lt small]
  rfl

/-- A double whose exponent is in the middle of the range is unpacked with a leading digit. -/
theorem unpack_normal (s : Sign) {e : BitVec 11} (m : BitVec 52) (low : e ≠ 0#11)
    (high : e ≠ -1#11) :
    unpack .binary64 (packComponents .binary64 s e m) =
      .finite s (2 ^ 52 + m.toNat) (e.toNat - 1075) (Nat.add_pos_left (Nat.two_pow_pos 52) _) := by
  unfold unpack
  simp only [unpackMantissa_packComponents, unpackExponent_packComponents, sign_of_packed, low,
    high, if_false, mantissa_of_packed]
  rfl

/-- A mantissa with a leading digit is unpacked as it was packed, beside an exponent in the middle of
the range. -/
theorem unpack_full (s : Sign) {m k : ℕ} (full : 2 ^ 52 ≤ m) (few : m < 2 ^ 53) (low : 0 < k)
    (high : k < 2047) :
    unpack .binary64 (packComponents .binary64 s (BitVec.ofNat 11 k) (BitVec.ofNat 52 m)) =
      .finite s m (k - 1075) (Nat.lt_of_lt_of_le (Nat.two_pow_pos 52) full) := by
  have exponent : (BitVec.ofNat 11 k).toNat = k := by
    rw [BitVec.toNat_ofNat, Nat.mod_eq_of_lt (by omega)]
  have mantissa : (BitVec.ofNat 52 m).toNat = m - 2 ^ 52 := by
    rw [BitVec.toNat_ofNat]
    omega
  have notLeast : BitVec.ofNat 11 k ≠ 0#11 := by
    intro same
    rw [same] at exponent
    simp at exponent
    omega
  have notMost : BitVec.ofNat 11 k ≠ -1#11 := by
    intro same
    rw [same] at exponent
    simp at exponent
    omega
  refine (unpack_normal s _ notLeast notMost).trans ?_
  simp only [mantissa, exponent, Nat.add_sub_of_le full]

/-- A double whose exponent is the least one is unpacked as it is. -/
theorem unpack_subnormal (s : Sign) {m : BitVec 52} (nonzero : 0 < m.toNat) :
    unpack .binary64 (packComponents .binary64 s 0#11 m) =
      .finite s m.toNat (-1074) nonzero := by
  have different : (0#11 : BitVec 11) ≠ -1#11 := by decide
  have some : m ≠ 0#52 := by
    rintro rfl
    simp at nonzero
  unfold unpack
  simp only [unpackMantissa_packComponents, unpackExponent_packComponents, sign_of_packed,
    different, some, if_true, if_false, dite_false]
  rfl

theorem unpack_infinity (s : Sign) :
    unpack .binary64 (packedInfinity .binary64 s) = .infinity s := by
  unfold unpack packedInfinity
  simp only [unpackMantissa_packComponents, unpackExponent_packComponents, sign_of_packed]
  rfl

theorem unpack_zero (s : Sign) : unpack .binary64 (packedZero .binary64 s) = .zero s := by
  have different : (0 : BitVec 11) ≠ -1#11 := by decide
  unfold unpack packedZero
  simp only [unpackMantissa_packComponents, unpackExponent_packComponents, sign_of_packed,
    different, if_false]
  rfl

/-- The least of the fractions that are too large. -/
def limit : ℚ :=
  2 ^ (1024 : ℤ)

/-- The exponent of a float tells whether its fraction is too large. -/
theorem lt_limit_iff {m : ℕ} {e : ℤ} (few : m < 2 ^ 53) (normal : e = -1074 ∨ 2 ^ 52 ≤ m) :
    (m * 2 ^ e : ℚ) < limit ↔ e ≤ 971 := by
  constructor
  · intro small
    by_contra large
    have full : 2 ^ 52 ≤ m := by omega
    have reached : limit ≤ m * 2 ^ e := by
      calc limit = 2 ^ (52 : ℤ) * 2 ^ (972 : ℤ) := by
            rw [← zpow_add₀ two_ne_zero]
            rfl
        _ ≤ (m : ℚ) * 2 ^ e := by
          have digits : (2 : ℚ) ^ (52 : ℤ) ≤ m := by exact_mod_cast full
          have exponent : (2 : ℚ) ^ (972 : ℤ) ≤ 2 ^ e :=
            zpow_le_zpow_right₀ (by norm_num) (by omega)
          gcongr
    linarith
  · intro small
    calc (m * 2 ^ e : ℚ) < 2 ^ (53 : ℤ) * 2 ^ e := by
          have digits : (m : ℚ) < 2 ^ (53 : ℤ) := by exact_mod_cast few
          gcongr
      _ ≤ 2 ^ (53 : ℤ) * 2 ^ (971 : ℤ) := by
          have exponent : (2 : ℚ) ^ e ≤ 2 ^ (971 : ℤ) := zpow_le_zpow_right₀ (by norm_num) small
          gcongr
      _ = limit := by
          rw [← zpow_add₀ two_ne_zero]
          rfl

/-- What stands for a fraction is packed without loss unless the fraction is too large. -/
theorem unpack_pack {u : UnpackedFloat} {q : ℚ} (h : Stands u q) :
    unpack .binary64 (pack .binary64 u) = if q < limit then u else .infinity .positive := by
  cases h with
  | zero s =>
    rw [if_pos (show (0 : ℚ) < limit from two_zpow_pos 1024)]
    exact unpack_zero s
  | @finite m e positive few least normal =>
    have biased : (e + (Format.binary64.exponentBias : ℤ) +
        (Format.binary64.mantissaBitsWithoutImplicit : ℤ)).toNat = (e + 1075).toNat := by
      have bias : (Format.binary64.exponentBias : ℤ) = 1023 := rfl
      have bits : (Format.binary64.mantissaBitsWithoutImplicit : ℤ) = 52 := rfl
      omega
    unfold UnpackedFloat.pack
    simp only [lt_limit_iff few normal, biased]
    by_cases large : 2047 ≤ (e + 1075).toNat
    · have high : ¬ e ≤ 971 := by omega
      rw [if_pos (show 2 ^ 11 ≤ (e + 1075).toNat + 1 by omega), if_neg high]
      exact unpack_infinity .positive
    · have fits : e ≤ 971 := by omega
      rw [if_neg (show ¬ 2 ^ 11 ≤ (e + 1075).toNat + 1 by omega), if_pos fits]
      by_cases full : 2 ^ 52 ≤ m
      · have digits : m.log2 = 52 := (Nat.log2_eq_iff positive.ne').mpr ⟨full, few⟩
        rw [if_pos (by rw [digits]; rfl)]
        refine (unpack_full .positive full few (by omega) (by omega)).trans ?_
        simp only [UnpackedFloat.finite.injEq, true_and]
        omega
      · have digits : m.log2 + 1 ≠ Format.binary64.mantissaBits := by
          have few' := (Nat.log2_lt positive.ne').mpr (not_le.mp full)
          intro same
          have bits : Format.binary64.mantissaBits = 53 := rfl
          omega
        rw [if_neg digits]
        have mantissa : (BitVec.ofNat 52 m).toNat = m := by
          rw [BitVec.toNat_ofNat, Nat.mod_eq_of_lt (not_le.mp full)]
        obtain rfl : e = -1074 := by omega
        have nonzero : 0 < (BitVec.ofNat 52 m).toNat := by rwa [mantissa]
        refine (unpack_subnormal .positive nonzero).trans ?_
        simp only [mantissa]

/-! ### Fractions that doubles denote -/

/-- The double is neither negative nor infinite, and it has this value. -/
def Denotes (x : Float) (q : ℚ) : Prop :=
  Stands x.toModel.unpack q

/-- The double has the value nearest to a fraction, or is infinite if that is too large. -/
def Rounds (x : Float) (q : ℚ) : Prop :=
  (nearest q < limit ∧ Denotes x (nearest q)) ∨
    (limit ≤ nearest q ∧ x.toModel.unpack = .infinity .positive)

/-- What is packed is rounded if it stands for the nearest fraction. -/
theorem rounds_pack {u : UnpackedFloat} {q : ℚ} (h : Stands u (nearest q)) :
    Rounds (.ofModel (.pack u)) q := by
  have kept : (Float.ofModel (.pack u)).toModel.unpack =
      if nearest q < limit then u else .infinity .positive := unpack_pack h
  by_cases small : nearest q < limit
  · rw [if_pos small] at kept
    refine .inl ⟨small, ?_⟩
    rw [Denotes, kept]
    exact h
  · rw [if_neg small] at kept
    exact .inr ⟨not_lt.mp small, kept⟩

section

variable {x y : Float} {p q : ℚ}

theorem Denotes.number (h : Denotes x q) : Number x := by
  unfold Number
  intro none
  rw [Denotes, none] at h
  cases h

theorem Denotes.nonneg (h : Denotes x q) : 0 ≤ q :=
  Stands.nonneg h

/-- A rounded fraction that is not too large is denoted. -/
theorem Rounds.denotes (h : Rounds x q) (small : nearest q < limit) : Denotes x (nearest q) := by
  rcases h with ⟨-, found⟩ | ⟨large, -⟩
  · exact found
  · exact absurd small (not_lt.mpr large)

theorem Denotes.add (hx : Denotes x p) (hy : Denotes y q) : Rounds (x + y) (p + q) :=
  rounds_pack (Stands.add hx hy)

theorem Denotes.mul (hx : Denotes x p) (hy : Denotes y q) : Rounds (x * y) (p * q) :=
  rounds_pack (Stands.mul hx hy)

theorem Denotes.div (hx : Denotes x p) (hy : Denotes y q) (positive : 0 < q) :
    Rounds (x / y) (p / q) :=
  rounds_pack (Stands.div hx hy positive)

theorem value_lt_of_exponent_lt {m n : ℕ} {e f : ℤ} (few : m < 2 ^ 53) (least : -1074 ≤ e)
    (normal : f = -1074 ∨ 2 ^ 52 ≤ n) (less : e < f) : (m * 2 ^ e : ℚ) < n * 2 ^ f := by
  have full : 2 ^ 52 ≤ n := by omega
  calc (m * 2 ^ e : ℚ) < 2 ^ (53 : ℤ) * 2 ^ e := by
        have digits : (m : ℚ) < 2 ^ (53 : ℤ) := by exact_mod_cast few
        gcongr
    _ = 2 ^ (52 : ℤ) * 2 ^ (e + 1) := by
        rw [← zpow_add₀ two_ne_zero, ← zpow_add₀ two_ne_zero]
        congr 1
        omega
    _ ≤ n * 2 ^ f := by
        have digits : (2 : ℚ) ^ (52 : ℤ) ≤ n := by exact_mod_cast full
        have exponent : (2 : ℚ) ^ (e + 1) ≤ 2 ^ f := zpow_le_zpow_right₀ (by norm_num) less
        gcongr

/-- Unpacked floats in the right form have the order of what they stand for. -/
theorem rank_lt_iff {u v : UnpackedFloat} (hu : Stands u p) (hv : Stands v q) :
    rank u < rank v ↔ p < q := by
  cases hu with
  | zero s =>
    cases hv with
    | zero t => simp [rank]
    | finite positive =>
      simp only [rank, Prod.Lex.toLex_lt_toLex]
      constructor
      · intro _
        positivity
      · intro _
        exact .inl one_pos
  | @finite m e positive few least normal =>
    cases hv with
    | zero t =>
      have value : (0 : ℚ) < m * 2 ^ e := by positivity
      simp [rank, Prod.Lex.toLex_lt_toLex, value.le]
    | @finite n f positive' few' least' normal' =>
      simp only [rank, Prod.Lex.toLex_lt_toLex, lt_irrefl, false_or, true_and]
      rcases lt_trichotomy e f with less | rfl | more
      · have values := value_lt_of_exponent_lt few least normal' less
        exact ⟨fun _ => values, fun _ => .inl less⟩
      · rw [mul_lt_mul_iff_left₀ (two_zpow_pos e)]
        simp
      · have values := value_lt_of_exponent_lt few' least' normal more
        constructor
        · rintro (less | ⟨same, -⟩)
          · exact absurd less more.not_gt
          · exact absurd same more.ne'
        · intro less
          exact absurd less values.not_gt

theorem rank_lt_infinity {u : UnpackedFloat} (h : Stands u q) :
    rank u < rank (.infinity .positive) := by
  cases h <;> simp [rank, Prod.Lex.toLex_lt_toLex]

theorem Denotes.lt_iff (hx : Denotes x p) (hy : Denotes y q) : x < y ↔ p < q := by
  rw [lt_iff_rankOf hx.number hy.number]
  exact rank_lt_iff hx hy

theorem Denotes.le_iff (hx : Denotes x p) (hy : Denotes y q) : x ≤ y ↔ p ≤ q := by
  rw [← not_lt_iff hy.number hx.number, hy.lt_iff hx, not_lt]

/-- A double that is unpacked to a finite float is unpacked to one in the right form. -/
theorem unpack_form {b : BitVec 64} {s : Sign} {m : ℕ} {e : ℤ} {positive : 0 < m}
    (h : unpack .binary64 b = .finite s m e positive) :
    m < 2 ^ 53 ∧ -1074 ≤ e ∧ (e = -1074 ∨ 2 ^ 52 ≤ m) := by
  unfold unpack at h
  have bias : (Format.binary64.exponentBias : ℤ) = 1023 := rfl
  simp only [bias] at h
  split at h
  · split at h <;> simp at h
  · split at h
    · split at h
      · simp at h
      · next zero _ =>
        obtain ⟨-, rfl, rfl⟩ := UnpackedFloat.finite.inj h
        have small := (@unpackMantissa .binary64 b).isLt
        simp only [zero]
        refine ⟨by omega, ?_, .inl ?_⟩ <;> simp
    · next nonzero =>
      obtain ⟨-, rfl, rfl⟩ := UnpackedFloat.finite.inj h
      have small := (@unpackMantissa .binary64 b).isLt
      have mantissa : (1#1 ++ @unpackMantissa .binary64 b).toNat = _ :=
        mantissa_of_packed (@unpackMantissa .binary64 b)
      have exponent : 0 < (@unpackExponent .binary64 b).toNat := by
        apply Nat.pos_of_ne_zero
        intro zero
        exact nonzero (BitVec.eq_of_toNat_eq zero)
      rw [mantissa]
      simp only [Nat.cast_ofNat]
      omega

/-- A double between zero and one that denotes something denotes something too. -/
theorem exists_denotes (low : 0.0 ≤ x) (high : x ≤ y) (hy : Denotes y q) : ∃ p, Denotes x p := by
  have number : Number x := (number_of_le low).2
  have zero : Number 0.0 := (number_of_le low).1
  have above := (le_iff_rankOf zero number).mp low
  have below := (le_iff_rankOf number hy.number).mp high
  have rankZero : rankOf 0.0 = toLex (0, toLex (0, 0)) := by decide
  rw [rankZero] at above
  have less := below.trans_lt (rank_lt_infinity hy)
  unfold rankOf at above less
  unfold Denotes
  cases h : x.toModel.unpack with
  | notANumber => exact absurd h number
  | infinity s =>
    rw [h] at above less
    cases s with
    | negative => exact absurd above (by decide)
    | positive => exact absurd less (by decide)
  | zero s => exact ⟨0, .zero s⟩
  | finite s m e positive =>
    obtain ⟨few, least, normal⟩ := unpack_form h
    rw [h] at above
    cases s with
    | negative => simp [rank, Prod.Lex.toLex_le_toLex] at above
    | positive => exact ⟨_, .finite positive few least normal⟩

end

/-! ### Whole numbers -/

theorem Stands.ofNat (n : ℕ) : Stands (UnpackedFloat.ofNat .binary64 n) (nearest n) := by
  unfold UnpackedFloat.ofNat ofInt UnpackedFloat.normalize
  rcases Nat.eq_zero_or_pos n with rfl | positive
  · have zero : nearest (0 : ℕ) = 0 := by rw [Nat.cast_zero, nearest_zero]
    rw [zero]
    exact .zero _
  · have greater : compare (n : ℤ) 0 = .gt := by
      rw [compare_gt_iff_gt]
      exact_mod_cast positive
    have rounded := round_stands positive 0
    rw [zpow_zero, mul_one] at rounded
    rw [greater]
    exact rounded

theorem nearest_natCast {n : ℕ} (few : n < 2 ^ 53) : nearest n = n := by
  have kept : nearest (n * 2 ^ (0 : ℤ)) = n * 2 ^ (0 : ℤ) := nearest_eq few (by norm_num)
  rwa [zpow_zero, mul_one] at kept

theorem zpow_lt_limit {e : ℤ} (less : e < 1024) : (2 : ℚ) ^ e < limit :=
  zpow_lt_zpow_right₀ (by norm_num) less

/-- A small whole number is denoted by what is rounded from it. -/
theorem Rounds.natCast {x : Float} {n : ℕ} (h : Rounds x n) (few : n < 2 ^ 53) : Denotes x n := by
  have small : (n : ℚ) < limit := by
    refine lt_trans ?_ (zpow_lt_limit (e := 53) (by norm_num))
    exact_mod_cast few
  have found := h.denotes (by rwa [nearest_natCast few])
  rwa [nearest_natCast few] at found

/-- A small whole number in a word of the machine is kept. -/
theorem toUInt64_denotes {n : ℕ} (few : n < 2 ^ 53) : Denotes n.toUInt64.toFloat n := by
  have word : n.toUInt64.toNat = n := by
    rw [UInt64.toNat_ofNat']
    omega
  have stands : Stands (ofUInt64 .binary64 n.toUInt64) (nearest n) := by
    rw [ofUInt64, word]
    exact Stands.ofNat n
  have rounded : Rounds n.toUInt64.toFloat n := rounds_pack stands
  exact rounded.natCast few

theorem one_denotes : Denotes (Float.ofBits 0x3FF0000000000000) 1 := by
  have bits : (Float.ofBits 0x3FF0000000000000).toModel.unpack =
      .finite .positive (2 ^ 52) (-52) (by norm_num) := by rfl
  have value : (1 : ℚ) = ((2 ^ 52 : ℕ) : ℚ) * 2 ^ (-52 : ℤ) := by
    norm_num
  rw [Denotes, bits, value]
  exact .finite _ (by norm_num) (by norm_num) (.inr le_rfl)

theorem ofNat_rounds (n : ℕ) : Rounds (Float.ofNat n) n := by
  show Rounds (Float.ofScientific n false 0) n
  unfold Float.ofScientific
  by_cases small : n < 2 ^ 53
  · rw [dif_pos ⟨small, by omega⟩]
    have product : Rounds (n.toUInt64.toFloat * Float.ofBits 0x3FF0000000000000) (n * 1) :=
      (toUInt64_denotes small).mul one_denotes
    rwa [mul_one] at product
  · rw [dif_neg (fun h => small h.1)]
    have positive : 0 < n := by omega
    apply rounds_pack
    have large : ¬ (0 : ℤ) > 2 ^ 11 := by norm_num
    have small' : ¬ (0 : ℤ) < -(2 ^ 11 + n.log2) := by omega
    have result : ofScientific .binary64 n 0 = roundWithAccuracy .binary64 .positive
        (n <<< 53 * 1) (-53 + 0) .exact := by
      rw [ofScientific, dif_neg positive.ne', if_neg large, if_neg small', if_pos le_rfl]
      rfl
    have value : (n : ℚ) = ((n <<< 53 * 1 : ℕ) : ℚ) * 2 ^ (-53 + 0 : ℤ) := by
      rw [Nat.shiftLeft_eq]
      push_cast
      ring
    have enough : 2 ^ 52 ≤ n <<< 53 * 1 := by
      rw [Nat.shiftLeft_eq]
      omega
    have nonzero : (0 : ℚ) < (n <<< 53 * 1 : ℕ) := by
      have : 0 < n <<< 53 * 1 := by omega
      exact_mod_cast this
    have stands := roundWithAccuracy_stands (e := -53 + 0) (Tracks.exact (n <<< 53 * 1)) nonzero
      (.inl enough)
    rw [← value, ← result] at stands
    exact stands

end CodeAtlas.Double
