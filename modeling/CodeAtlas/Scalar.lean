/-!
Number types for the computations that are run in floating point and reasoned about in exact
arithmetic: clustering, rank fusion and term scores are written once, over any of them.
-/

namespace CodeAtlas

/-- Numbers with the four operations, decimal constants, a strict comparison and a test for being
finite. -/
class Scalar (α : Type) extends Add α, Sub α, Mul α, Div α where
  ofNat : Nat → α
  /-- The number `digits * 10 ^ -places`. -/
  ofDecimal (digits places : Nat) : α
  less : α → α → Bool
  isFinite : α → Bool

/-- Numbers that have logarithms. -/
class LogScalar (α : Type) extends Scalar α where
  log : α → α

instance : LogScalar Float where
  ofNat := Float.ofNat
  ofDecimal digits places := Float.ofScientific digits true places
  less a b := decide (a < b)
  isFinite := Float.isFinite
  log := Float.log

instance : Scalar Rat where
  ofNat n := (n : Rat)
  ofDecimal digits places := mkRat digits (Nat.pow 10 places)
  less a b := decide (a < b)
  isFinite _ := true

namespace Scalar

variable {α : Type} [Scalar α]

/-- The number zero. -/
def zero : α :=
  ofNat 0

/-- The number one. -/
def one : α :=
  ofNat 1

/-- The sum of a list from left to right. -/
def sum (xs : List α) : α :=
  xs.foldl (· + ·) zero

/-- The greater of two numbers, the first where neither is. -/
def max (a b : α) : α :=
  if less a b then b else a

/-- A list of scored items, best first; items of equal score are in the order of `before`. -/
def ranked {β : Type} (score : β → α) (before : β → β → Bool) (items : List β) : List β :=
  items.mergeSort fun a b =>
    if less (score b) (score a) then true
    else if less (score a) (score b) then false
    else before a b

end Scalar

end CodeAtlas
