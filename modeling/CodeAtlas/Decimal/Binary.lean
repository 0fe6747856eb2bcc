/-!
The exact value of a floating-point number. A finite number is a sign, a whole mantissa and a power
of two, read off its bits; what is printed of it elsewhere is computed from these in whole numbers.
-/

namespace CodeAtlas.Decimal

/-- The magnitude `mantissa * 2 ^ exponent`. -/
structure Binary where
  mantissa : Nat
  exponent : Int
  deriving Repr, DecidableEq

/-- What a floating-point number stands for. -/
inductive Value where
  | notANumber
  | infinite (negative : Bool)
  | finite (negative : Bool) (magnitude : Binary)
  deriving Repr, DecidableEq

/-- Reads the 64 bits of a double: one sign bit, eleven of exponent, 52 of fraction. -/
def Value.ofBits (bits : Nat) : Value :=
  let negative := decide (Nat.pow 2 63 ≤ bits)
  let exponent : Nat := bits / Nat.pow 2 52 % Nat.pow 2 11
  let fraction : Nat := bits % Nat.pow 2 52
  if exponent = 2047 then if fraction = 0 then .infinite negative else .notANumber
  else if exponent = 0 then .finite negative ⟨fraction, -1074⟩
  else .finite negative ⟨Nat.pow 2 52 + fraction, (exponent : Int) - 1075⟩

/-- The value of a floating-point number. -/
def Value.ofFloat (x : Float) : Value :=
  ofBits x.toBits.toNat

/-- The magnitude times `scale`, as a fraction. -/
def Binary.scaled (b : Binary) (scale : Nat) : Nat × Nat :=
  match b.exponent with
  | .ofNat n => (b.mantissa * scale * Nat.pow 2 n, 1)
  | .negSucc n => (b.mantissa * scale, Nat.pow 2 (n + 1))

/-- The denominator of a scaled magnitude is positive. -/
theorem Binary.scaled_den_pos (b : Binary) (scale : Nat) : 0 < (b.scaled scale).2 := by
  unfold scaled
  split
  · exact Nat.one_pos
  · exact Nat.two_pow_pos _

/-- The whole number nearest to a fraction; a half goes to the even neighbour. -/
def roundHalfEven (num den : Nat) : Nat :=
  let floor := num / den
  let twice := 2 * (num % den)
  if twice < den then floor
  else if den < twice then floor + 1
  else floor + floor % 2

/-- Rounding moves a fraction by at most one half. -/
theorem roundHalfEven_near {num den : Nat} (h : 0 < den) :
    2 * (roundHalfEven num den * den) ≤ 2 * num + den ∧
      2 * num ≤ 2 * (roundHalfEven num den * den) + den := by
  have split := Nat.div_add_mod num den
  have small := Nat.mod_lt num h
  have comm : num / den * den = den * (num / den) := Nat.mul_comm _ _
  unfold roundHalfEven
  simp only
  split
  · omega
  · split
    · rw [Nat.add_mul]; omega
    · rcases Nat.mod_two_eq_zero_or_one (num / den) with parity | parity <;>
        rw [parity, Nat.add_mul] <;> omega

end CodeAtlas.Decimal
