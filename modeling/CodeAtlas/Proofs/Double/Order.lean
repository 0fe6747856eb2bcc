import CodeAtlas.Graph.Edge
import CodeAtlas.Scalar
import Mathlib.Data.Prod.Lex
import Mathlib.Algebra.Order.Ring.Int

/-!
# The order of doubles

Doubles that are numbers are compared as triples of integers: first by sign and kind, then by
exponent, then by mantissa. So their order is total and transitive, and numbers are brought
between zero and one by clamping.
-/

namespace CodeAtlas.Double

open Float.Model (UnpackedFloat)
open Float.Model.UnpackedFloat (Sign)

/-- Sign and kind, exponent and mantissa, such that the order of numbers is that of the triples. -/
def rank : UnpackedFloat → ℤ ×ₗ ℤ ×ₗ ℤ
  | .notANumber => toLex (0, toLex (0, 0))
  | .infinity .negative => toLex (-2, toLex (0, 0))
  | .finite .negative m e _ => toLex (-1, toLex (-e, -(m : ℤ)))
  | .zero _ => toLex (0, toLex (0, 0))
  | .finite .positive m e _ => toLex (1, toLex (e, (m : ℤ)))
  | .infinity .positive => toLex (2, toLex (0, 0))

private theorem then_eq_lt (e f : ℤ) (m n : ℕ) :
    (compare e f).then (compare m n) = .lt ↔ e < f ∨ e = f ∧ m < n := by
  rw [Ordering.then_eq_lt, compare_lt_iff_lt, compare_eq_iff_eq, compare_lt_iff_lt]

private theorem then_eq_gt (e f : ℤ) (m n : ℕ) :
    (compare e f).then (compare m n) = .gt ↔ f < e ∨ e = f ∧ n < m := by
  rw [Ordering.then_eq_gt, compare_gt_iff_gt, compare_eq_iff_eq, compare_gt_iff_gt]

theorem compare_rank {a b : UnpackedFloat} (ha : a ≠ .notANumber) (hb : b ≠ .notANumber) :
    ∃ o, a.compare b = some o ∧ (o = .lt ↔ rank a < rank b) ∧ (o = .gt ↔ rank b < rank a) := by
  cases a with
  | notANumber => exact absurd rfl ha
  | infinity s =>
    cases b with
    | notANumber => exact absurd rfl hb
    | infinity t => cases s <;> cases t <;> exact ⟨_, rfl, by decide, by decide⟩
    | zero t => cases s <;> exact ⟨_, rfl, by dsimp only [rank]; simp [Prod.Lex.toLex_lt_toLex]⟩
    | finite t m e p =>
      cases s <;> cases t <;> exact ⟨_, rfl, by dsimp only [rank]; simp [Prod.Lex.toLex_lt_toLex]⟩
  | zero s =>
    cases b with
    | notANumber => exact absurd rfl hb
    | infinity t => cases t <;> exact ⟨_, rfl, by dsimp only [rank]; simp [Prod.Lex.toLex_lt_toLex]⟩
    | zero t => exact ⟨_, rfl, by dsimp only [rank]; simp⟩
    | finite t m e p => cases t <;> exact ⟨_, rfl, by dsimp only [rank]; simp [Prod.Lex.toLex_lt_toLex]⟩
  | finite s m e p =>
    cases b with
    | notANumber => exact absurd rfl hb
    | infinity t =>
      cases s <;> cases t <;> exact ⟨_, rfl, by dsimp only [rank]; simp [Prod.Lex.toLex_lt_toLex]⟩
    | zero t => cases s <;> exact ⟨_, rfl, by dsimp only [rank]; simp [Prod.Lex.toLex_lt_toLex]⟩
    | finite t n f q =>
      cases s <;> cases t <;> refine ⟨_, rfl, ?_, ?_⟩ <;>
        dsimp only [rank] <;> simp [then_eq_lt, then_eq_gt, Prod.Lex.toLex_lt_toLex] <;> omega

/-- The strict comparison of unpacked numbers is that of their ranks. -/
theorem unpacked_lt_iff {a b : UnpackedFloat} (ha : a ≠ .notANumber) (hb : b ≠ .notANumber) :
    a.lt b = true ↔ rank a < rank b := by
  obtain ⟨o, compared, less, -⟩ := compare_rank ha hb
  rw [UnpackedFloat.lt, compared, ← less]
  cases o <;> decide

/-- The weak comparison of unpacked numbers is that of their ranks. -/
theorem unpacked_le_iff {a b : UnpackedFloat} (ha : a ≠ .notANumber) (hb : b ≠ .notANumber) :
    a.le b = true ↔ rank a ≤ rank b := by
  obtain ⟨o, compared, -, greater⟩ := compare_rank ha hb
  rw [UnpackedFloat.le, compared, ← not_lt, ← greater]
  cases o <;> decide

/-- What is less than something or more than something is a number. -/
theorem unpacked_number_of_lt {a b : UnpackedFloat} (h : a.lt b = true) :
    a ≠ .notANumber ∧ b ≠ .notANumber := by
  constructor
  · rintro rfl
    cases b <;> exact absurd h Bool.false_ne_true
  · rintro rfl
    cases a <;> exact absurd h Bool.false_ne_true

/-- What is at most something or at least something is a number. -/
theorem unpacked_number_of_le {a b : UnpackedFloat} (h : a.le b = true) :
    a ≠ .notANumber ∧ b ≠ .notANumber := by
  constructor
  · rintro rfl
    cases b <;> exact absurd h Bool.false_ne_true
  · rintro rfl
    cases a <;> exact absurd h Bool.false_ne_true

/-! ### Doubles -/

/-- The double is a number, perhaps an infinite one. -/
def Number (x : Float) : Prop :=
  x.toModel.unpack ≠ .notANumber

/-- The rank of a double. -/
def rankOf (x : Float) : ℤ ×ₗ ℤ ×ₗ ℤ :=
  rank x.toModel.unpack

section Order

variable {x y z : Float}

theorem lt_iff_rankOf (hx : Number x) (hy : Number y) : x < y ↔ rankOf x < rankOf y := by
  rw [show x < y ↔ x.toModel.unpack.lt y.toModel.unpack = true from decide_eq_true_iff]
  exact unpacked_lt_iff hx hy

theorem le_iff_rankOf (hx : Number x) (hy : Number y) : x ≤ y ↔ rankOf x ≤ rankOf y := by
  rw [show x ≤ y ↔ x.toModel.unpack.le y.toModel.unpack = true from decide_eq_true_iff]
  exact unpacked_le_iff hx hy

theorem number_of_lt (h : x < y) : Number x ∧ Number y :=
  unpacked_number_of_lt (of_decide_eq_true h)

theorem number_of_le (h : x ≤ y) : Number x ∧ Number y :=
  unpacked_number_of_le (of_decide_eq_true h)

/-- Of two numbers, one is at most the other or more than it. -/
theorem not_lt_iff (hx : Number x) (hy : Number y) : ¬ x < y ↔ y ≤ x := by
  rw [lt_iff_rankOf hx hy, le_iff_rankOf hy hx, not_lt]

end Order

/-! ### Between zero and one -/

/-- The double lies between zero and one. -/
def InUnit (x : Float) : Prop :=
  0.0 ≤ x ∧ x ≤ 1.0

instance (x : Float) : Decidable (InUnit x) :=
  inferInstanceAs (Decidable (_ ∧ _))

/-- A number that is clamped lies between zero and one. -/
theorem clampUnit_inUnit {x : Float} (number : Number x) : InUnit (Edge.clampUnit x) := by
  have zero : Number 0.0 := (number_of_le (y := 0.0) (by decide)).1
  have one : Number 1.0 := (number_of_le (y := 1.0) (by decide)).1
  unfold Edge.clampUnit
  split
  · decide
  · next notBelow =>
    split
    · decide
    · next notAbove =>
      exact ⟨(not_lt_iff number zero).mp notBelow, (not_lt_iff one number).mp notAbove⟩

theorem clampUnit_eq {x : Float} (inside : InUnit x) : Edge.clampUnit x = x := by
  obtain ⟨zero, number⟩ := number_of_le inside.1
  have one := (number_of_le inside.2).2
  unfold Edge.clampUnit
  rw [if_neg ((not_lt_iff number zero).mpr inside.1),
    if_neg ((not_lt_iff one number).mpr inside.2)]

end CodeAtlas.Double
