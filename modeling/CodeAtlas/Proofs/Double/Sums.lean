import CodeAtlas.Proofs.Double.Quotient
import CodeAtlas.Scalar

/-!
# Sums of doubles

A sum of any number of doubles is finite if each is small: once the sum is a power of two that is
large enough, what is added is lost. A sum is at least as great as each of its parts.
-/

namespace CodeAtlas.Double

/-- The double denotes a fraction of at most a power of two. -/
def UpTo (e : ℤ) (x : Float) : Prop :=
  ∃ q, Denotes x q ∧ q ≤ 2 ^ e

section

variable {x y : Float} {p q : ℚ} {e : ℤ}

theorem Denotes.unique (hp : Denotes x p) (hq : Denotes x q) : p = q := by
  have same : x ≤ x := (hp.le_iff hp).mpr le_rfl
  exact le_antisymm ((hp.le_iff hq).mp same) ((hq.le_iff hp).mp same)

/-- Adding something small to what is at most a power of two does not exceed that. -/
theorem Denotes.add_small (least : -1022 ≤ e) (most : e < 1024) (hx : Denotes x p) (hp : p ≤ 2 ^ e)
    (hy : Denotes y q) (hq : q ≤ 2 ^ (e - 53)) :
    ∃ r, Denotes (x + y) r ∧ r ≤ 2 ^ e ∧ p ≤ r ∧ q ≤ r := by
  have sum : 0 ≤ p + q := add_nonneg hx.nonneg hy.nonneg
  have bounded : nearest (p + q) ≤ 2 ^ e := by
    have largest := nearest_add_small least hy.nonneg hq
    have mono := nearest_mono sum (add_le_add_left hp q)
    rwa [largest] at mono
  refine ⟨_, (hx.add hy).denotes (bounded.trans_lt (zpow_lt_limit most)), bounded, ?_, ?_⟩
  · have mono := nearest_mono hx.nonneg (le_add_of_nonneg_right hy.nonneg : p ≤ p + q)
    rwa [Stands.nearest_eq hx] at mono
  · have mono := nearest_mono hy.nonneg (le_add_of_nonneg_left hx.nonneg : q ≤ p + q)
    rwa [Stands.nearest_eq hy] at mono

/-- The sum of a list of small doubles is no less than its parts and does not exceed its bound. -/
theorem foldl_add_denotes (least : -1022 ≤ e) (most : e < 1024) {xs : List Float}
    (each : ∀ x ∈ xs, UpTo (e - 53) x) (start : Denotes x p) (bound : p ≤ 2 ^ e) :
    ∃ r, Denotes (xs.foldl (· + ·) x) r ∧ r ≤ 2 ^ e ∧ p ≤ r ∧
      ∀ y ∈ xs, ∀ q, Denotes y q → q ≤ r := by
  induction xs generalizing x p with
  | nil => exact ⟨p, start, bound, le_rfl, by simp⟩
  | cons y rest ih =>
    obtain ⟨q, hy, hq⟩ := each y List.mem_cons_self
    obtain ⟨s, sum, sumBound, pLe, qLe⟩ := start.add_small least most bound hy hq
    obtain ⟨r, total, totalBound, sLe, parts⟩ :=
      ih (fun z member => each z (List.mem_cons_of_mem y member)) sum sumBound
    refine ⟨r, total, totalBound, pLe.trans sLe, ?_⟩
    intro z member q' hz
    rcases List.mem_cons.mp member with rfl | later
    · rw [hz.unique hy]
      exact qLe.trans sLe
    · exact parts z later q' hz

theorem Denotes.isFinite (h : Denotes x q) : x.isFinite = true := by
  show x.toModel.unpack.isFinite = true
  unfold Denotes at h
  generalize x.toModel.unpack = u at h
  cases h <;> rfl

end

theorem scalar_zero_denotes : Denotes (Scalar.zero : Float) 0 := by
  have rounded := ofNat_rounds 0
  have zero : Denotes (Float.ofNat 0) (0 : ℕ) := rounded.natCast (by norm_num)
  rwa [Nat.cast_zero] at zero

theorem scalar_one_denotes : Denotes (Scalar.one : Float) 1 := by
  have rounded := ofNat_rounds 1
  have one : Denotes (Float.ofNat 1) (1 : ℕ) := rounded.natCast (by norm_num)
  rwa [Nat.cast_one] at one

theorem half_denotes : Denotes 0.5 (1 / 2) := by
  have bits : (0.5 : Float).toModel.unpack = .finite .positive (2 ^ 52) (-53) (by norm_num) := by
    rfl
  have value : (1 / 2 : ℚ) = ((2 ^ 52 : ℕ) : ℚ) * 2 ^ (-53 : ℤ) := by
    norm_num
  rw [Denotes, bits, value]
  exact .finite _ (by norm_num) (by norm_num) (.inr le_rfl)

/-! ### Numbers that may be infinite -/

/-- The double denotes a fraction that is no less than another one, or it is infinite. -/
def AtLeast (x : Float) (least : ℚ) : Prop :=
  (∃ q, Denotes x q ∧ least ≤ q) ∨ x.toModel.unpack = .infinity .positive

section

variable {x y : Float} {p q least : ℚ}

theorem Rounds.atLeast (rounds : Rounds x q) (bound : least ≤ nearest q) : AtLeast x least := by
  rcases rounds with ⟨-, found⟩ | ⟨-, infinite⟩
  · exact .inl ⟨_, found, bound⟩
  · exact .inr infinite

theorem ofNat_atLeast {n : ℕ} (positive : 0 < n) : AtLeast (Float.ofNat n) 1 :=
  (ofNat_rounds n).atLeast (one_le_nearest positive)

theorem ofNat_nonneg (n : ℕ) : AtLeast (Float.ofNat n) 0 :=
  (ofNat_rounds n).atLeast (nearest_nonneg n.cast_nonneg)

theorem AtLeast.number (hx : AtLeast x least) : Number x := by
  rcases hx with ⟨p, found, -⟩ | infinite
  · exact found.number
  · rw [Number, infinite]
    simp

theorem AtLeast.lt (hx : AtLeast x least) (hy : Denotes y q) (less : q < least) : y < x := by
  rcases hx with ⟨p, found, bound⟩ | infinite
  · exact (hy.lt_iff found).mpr (less.trans_le bound)
  · have number : Number x := AtLeast.number (.inr infinite : AtLeast x least)
    rw [lt_iff_rankOf hy.number number, rankOf, rankOf, infinite]
    exact rank_lt_infinity hy

theorem Denotes.atLeast (hx : Denotes x q) : AtLeast x q :=
  .inl ⟨q, hx, le_rfl⟩

theorem unpack_infinite_sum (sum : Float.Model.UnpackedFloat.add .binary64 x.toModel.unpack
    y.toModel.unpack = .infinity .positive) : (x + y).toModel.unpack = .infinity .positive := by
  show (Float.ofModel (.pack (Float.Model.UnpackedFloat.add .binary64 x.toModel.unpack
    y.toModel.unpack))).toModel.unpack = _
  rw [sum]
  exact unpack_infinity .positive

/-- A sum is no less than what either number is known to be. -/
theorem AtLeast.add_both {least' : ℚ} (hx : AtLeast x least) (hy : AtLeast y least') :
    AtLeast (x + y) least ∧ AtLeast (x + y) least' := by
  rcases hx with ⟨p, found, bound⟩ | infinite
  · rcases hy with ⟨q, found', bound'⟩ | infinite'
    · have first := nearest_mono found.nonneg (le_add_of_nonneg_right found'.nonneg : p ≤ p + q)
      have second := nearest_mono found'.nonneg (le_add_of_nonneg_left found.nonneg : q ≤ p + q)
      rw [Stands.nearest_eq found] at first
      rw [Stands.nearest_eq found'] at second
      exact ⟨(found.add found').atLeast (bound.trans first),
        (found.add found').atLeast (bound'.trans second)⟩
    · have sum : (x + y).toModel.unpack = .infinity .positive :=
        unpack_infinite_sum (by rw [infinite', Stands.add_infinity found])
      exact ⟨.inr sum, .inr sum⟩
  · rcases hy with ⟨q, found', -⟩ | infinite'
    · have sum : (x + y).toModel.unpack = .infinity .positive :=
        unpack_infinite_sum (by rw [infinite, Stands.infinity_add found'])
      exact ⟨.inr sum, .inr sum⟩
    · have sum : (x + y).toModel.unpack = .infinity .positive :=
        unpack_infinite_sum (by rw [infinite, infinite']; rfl)
      exact ⟨.inr sum, .inr sum⟩

/-- Adding something to a number does not make it less. -/
theorem AtLeast.add (hx : AtLeast x least) (hy : Denotes y q) : AtLeast (x + y) least :=
  (hx.add_both hy.atLeast).1

/-- A quotient by what is no less than one is not negative, and zero if that is infinite. -/
theorem AtLeast.div (hx : Denotes x p) (hy : AtLeast y 1) : AtLeast (x / y) 0 := by
  rcases hy with ⟨q, found, bound⟩ | infinite
  · have positive : 0 < q := zero_lt_one.trans_le bound
    have quotient := div_nonneg hx.nonneg positive.le
    exact (hx.div found positive).atLeast (nearest_nonneg quotient)
  · exact (hx.div_infinity infinite).atLeast

/-- Half of a number is no less than half of the least that it can be. -/
theorem AtLeast.half (hx : AtLeast x 1) : AtLeast (0.5 * x) (1 / 2) := by
  rcases hx with ⟨p, found, bound⟩ | infinite
  · apply (half_denotes.mul found).atLeast
    have mono : nearest (1 / 2) ≤ nearest (1 / 2 * p) := nearest_mono (by norm_num) (by linarith)
    rwa [Stands.nearest_eq half_denotes] at mono
  · right
    have product : Float.Model.UnpackedFloat.mul .binary64 (0.5 : Float).toModel.unpack
        x.toModel.unpack = .infinity .positive := by
      rw [infinite]
      exact Stands.mul_infinity half_denotes (by norm_num)
    show (Float.ofModel (.pack (Float.Model.UnpackedFloat.mul .binary64 (0.5 : Float).toModel.unpack
      x.toModel.unpack))).toModel.unpack = _
    rw [product]
    exact unpack_infinity .positive

end

end CodeAtlas.Double
