import CodeAtlas.Decimal.Binary

/-!
Numbers with a fixed count of decimal places. The exact value is rounded once, a half going to the
even neighbour; the sign is kept for a negative zero.
-/

namespace CodeAtlas.Decimal

/-- The digits of a number, with zeros in front up to a width. -/
def padded (width n : Nat) : String :=
  let digits := toString n
  String.ofList (List.replicate (width - digits.length) '0') ++ digits

/-- Writes a count of units of `10 ^ -places` with a decimal point. -/
def pointed (places units : Nat) : String :=
  if places = 0 then toString units
  else
    let unit := Nat.pow 10 places
    toString (units / unit) ++ "." ++ padded places (units % unit)

/-- The text of a value with a fixed count of decimal places. -/
def Value.fixed (places : Nat) : Value → String
  | .notANumber => "NaN"
  | .infinite negative => if negative then "-inf" else "inf"
  | .finite negative magnitude =>
    let (num, den) := magnitude.scaled (Nat.pow 10 places)
    (if negative then "-" else "") ++ pointed places (roundHalfEven num den)

/-- What is printed of a magnitude is a count of units that lies within half a unit of it. -/
theorem Value.fixed_finite_near (places : Nat) (negative : Bool) (b : Binary) :
    ∃ units, (Value.finite negative b).fixed places =
        (if negative then "-" else "") ++ pointed places units ∧
      2 * (units * (b.scaled (Nat.pow 10 places)).2) ≤
        2 * (b.scaled (Nat.pow 10 places)).1 + (b.scaled (Nat.pow 10 places)).2 ∧
      2 * (b.scaled (Nat.pow 10 places)).1 ≤
        2 * (units * (b.scaled (Nat.pow 10 places)).2) + (b.scaled (Nat.pow 10 places)).2 :=
  ⟨_, rfl, roundHalfEven_near (b.scaled_den_pos (Nat.pow 10 places))⟩

/-- The text of a floating-point number with a fixed count of decimal places. -/
def fixed (places : Nat) (x : Float) : String :=
  (Value.ofFloat x).fixed places

end CodeAtlas.Decimal
