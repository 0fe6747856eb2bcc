import CodeAtlas.Decimal.Binary

/-!
The shortest decimal that reads back as a given floating-point number. The numbers that round to a
double form an interval, whose ends belong to it exactly if the mantissa is even. Grids of one, two,
up to seventeen digits are tried in turn: on each, only the two neighbours of the value can lie in
the interval if any point does, so the first grid with a hit gives the fewest digits.
-/

namespace CodeAtlas.Decimal

/-- A decimal `digits * 10 ^ exponent`. -/
structure Scientific where
  digits : Nat
  exponent : Int
  deriving Repr, DecidableEq

/-- The magnitude and its interval in quarter units: lower end, value, upper end, exponent of
two. -/
def Binary.interval (b : Binary) : Nat × Nat × Nat × Int :=
  let value := 4 * b.mantissa
  let low := if b.mantissa = Nat.pow 2 52 ∧ -1074 < b.exponent then value - 1 else value - 2
  (low, value, value + 2, b.exponent - 2)

/-- The product `n * 2 ^ two / 10 ^ ten` as a fraction. -/
def onGrid (n : Nat) (two ten : Int) : Nat × Nat :=
  (n * Nat.pow 2 two.toNat * Nat.pow 10 (-ten).toNat,
    Nat.pow 2 (-two).toNat * Nat.pow 10 ten.toNat)

/-- The neighbour of the value on the grid of multiples of `10 ^ ten` that lies in the interval,
the nearer of two, the even one of two equally near. -/
def Binary.onGrid? (b : Binary) (ten : Int) : Option Nat :=
  let (low, value, high, two) := b.interval
  let closed := b.mantissa % 2 == 0
  let (num, den) := onGrid value two ten
  let below := num / den
  let within (point : Nat) : Bool :=
    let (lowNum, _) := onGrid low two ten
    let (highNum, _) := onGrid high two ten
    if closed then decide (lowNum ≤ point * den) && decide (point * den ≤ highNum)
    else decide (lowNum < point * den) && decide (point * den < highNum)
  let nearest := roundHalfEven num den
  if within nearest && nearest ≠ 0 then some nearest
  else if within below && below ≠ 0 then some below
  else if within (below + 1) then some (below + 1)
  else none

/-- The exponent `k` with `10 ^ (k - 1) ≤ value < 10 ^ k`, starting from an estimate. -/
def Binary.decimalExponent (b : Binary) : Int :=
  let start : Int := ((b.mantissa.log2 : Int) + b.exponent) * 30103 / 100000 - 1
  let reaches (k : Int) : Bool :=
    let (num, den) := onGrid b.mantissa b.exponent k
    decide (den ≤ num)
  let rec climb : Nat → Int → Int
    | 0, k => k
    | fuel + 1, k => if reaches k then climb fuel (k + 1) else k
  climb 6 start

/-- The shortest decimal of a positive magnitude, without zeros at its end. -/
def Binary.shortest (b : Binary) : Scientific :=
  let top := b.decimalExponent
  let rec go : Nat → Nat → Scientific
    | 0, _ => ⟨0, 0⟩
    | fuel + 1, count =>
      match b.onGrid? (top - count) with
      | some digits => ⟨digits, top - count⟩
      | none => go fuel (count + 1)
  let found := go 18 1
  let rec strip : Nat → Scientific → Scientific
    | 0, s => s
    | fuel + 1, s =>
      if s.digits ≠ 0 ∧ s.digits % 10 = 0 then strip fuel ⟨s.digits / 10, s.exponent + 1⟩ else s
  strip 20 found

/-- A decimal as JSON writes it: positional with at least one decimal place while the point falls
within sixteen digits or at most four zeros follow it, else with a signed exponent. -/
def Scientific.text (s : Scientific) : String :=
  let digits := toString s.digits
  let count : Int := digits.length
  let point := count + s.exponent
  let zeros (n : Int) : String := String.ofList (List.replicate n.toNat '0')
  if 0 ≤ s.exponent ∧ point ≤ 16 then digits ++ zeros s.exponent ++ ".0"
  else if 0 < point ∧ point ≤ 16 then
    String.ofList (digits.toList.take point.toNat) ++ "." ++
      String.ofList (digits.toList.drop point.toNat)
  else if -5 < point ∧ point ≤ 0 then "0." ++ zeros (-point) ++ digits
  else
    let tail := digits.toList.drop 1
    String.ofList (digits.toList.take 1) ++
      (if tail.isEmpty then "" else "." ++ String.ofList tail) ++
      (if 0 < point then "e+" else "e") ++ toString (point - 1)

/-- The shortest text that reads back as the number. -/
def shortest (x : Float) : String :=
  match Value.ofFloat x with
  | .notANumber => "null"
  | .infinite _ => "null"
  | .finite negative magnitude =>
    (if negative then "-" else "") ++
      if magnitude.mantissa = 0 then "0.0" else magnitude.shortest.text

end CodeAtlas.Decimal
