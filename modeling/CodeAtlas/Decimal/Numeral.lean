/-!
Floating-point numbers from decimal digits, in two ways. The exact way takes all digits and gives
the nearest number. The quick way keeps the digits that 64 bits hold and scales them by powers of
ten in floating-point arithmetic, so it may end a few units beside the nearest number.
-/

namespace CodeAtlas.Decimal

/-- The number with one more digit at its end. -/
def pushDigit (n : Nat) (c : Char) : Nat :=
  10 * n + (c.toNat - 48)

/-- The number that digits stand for. -/
def digitsValue (digits : List Char) : Nat :=
  digits.foldl pushDigit 0

/-- The floating-point number nearest to `mantissa * 10 ^ exponent`, where it is finite. -/
def nearest? (mantissa : Nat) (exponent : Int) : Option Float :=
  let size : Int := (toString mantissa).length
  if mantissa = 0 ∨ size + exponent < -400 then some 0.0
  else if 400 < size + exponent then none
  else
    let x :=
      if exponent < 0 then Float.ofScientific mantissa true (-exponent).toNat
      else Float.ofScientific mantissa false exponent.toNat
    if x.isInf then none else some x

/-- The least number that 64 bits do not hold. -/
def wordLimit : Nat :=
  18446744073709551616

/-- Appends digits to a number as long as 64 bits hold it; the digits that are left come second. -/
def fill : Nat → List Char → Nat × List Char
  | n, [] => (n, [])
  | n, c :: rest => if pushDigit n c < wordLimit then fill (pushDigit n c) rest else (n, c :: rest)

/-- A power of ten up to the greatest one within the doubles. -/
def powerOfTen (n : Nat) : Float :=
  Float.ofScientific 1 false n

/-- The number times `10 ^ exponent`, computed in floating-point arithmetic, where it is finite. An
exponent below the least power of ten is taken in several divisions. -/
def scaled? (x : Float) (exponent : Int) : Option Float :=
  if exponent < -308 then
    if x == 0.0 then some x else scaled? (x / powerOfTen 308) (exponent + 308)
  else if exponent < 0 then some (x / powerOfTen (-exponent).toNat)
  else if exponent ≤ 308 then
    let y := x * powerOfTen exponent.toNat
    if y.isInf then none else some y
  else if x == 0.0 then some x
  else none
termination_by (-exponent).toNat

/-- About the number with the given whole digits, decimal places and exponent, where it is finite:
whole digits that do not fit count only as zeros, places that do not fit not at all. -/
def quick? (whole places : List Char) (exponent : Int) : Option Float :=
  let (n, dropped) := fill 0 whole
  let (m, ignored) := fill n places
  let shift : Int := (dropped.length : Int) + ignored.length - places.length
  scaled? (Float.ofNat m) (exponent + shift)

end CodeAtlas.Decimal
