/-!
JSON values. Whole numbers and floating-point numbers are told apart, and an object keeps its fields
in the order and as often as they are written, since a field that is written twice is an error for
the readers of records. A leaf without a value stands for a number beyond every double, a string
with half a surrogate pair or an object with a field named by one: such text is well formed and may
be skipped, but nothing can be read from it.
-/

namespace CodeAtlas

/-- A JSON value. -/
inductive Json where
  | null
  | bool (b : Bool)
  | int (n : Int)
  | float (x : Float)
  | str (s : String)
  | arr (items : List Json)
  | obj (fields : List (String × Json))
  | hollow
  deriving Inhabited

namespace Json

/-- The whole numbers that are kept as such; the others are read as floating-point numbers. -/
def isWhole (n : Int) : Bool :=
  decide (-9223372036854775808 ≤ n) && decide (n ≤ 18446744073709551615)

/-- The value of the last field of that name. -/
def get? (name : String) : Json → Option Json
  | obj fields => (fields.reverse.find? (·.1 == name)).map (·.2)
  | _ => none

/-- The value at a position of an array. -/
def item? (position : Nat) : Json → Option Json
  | arr items => items[position]?
  | _ => none

/-- The text of a string. -/
def str? : Json → Option String
  | str s => some s
  | _ => none

/-- The value of a truth value. -/
def bool? : Json → Option Bool
  | bool b => some b
  | _ => none

/-- A whole number below a bound that is not negative. -/
def natBelow? (bound : Nat) : Json → Option Nat
  | int n => if 0 ≤ n ∧ n < bound then some n.toNat else none
  | _ => none

/-- The value of a number, whole numbers included. -/
def float? : Json → Option Float
  | int n => some (if n < 0 then -Float.ofNat n.natAbs else Float.ofNat n.natAbs)
  | float x => some x
  | _ => none

/-- The items of an array, each read in the same way. -/
def list? {α : Type} (read : Json → Option α) : Json → Option (List α)
  | arr items => items.mapM read
  | _ => none

/-- An optional value: `null` stands for its absence. -/
def option? {α : Type} (read : Json → Option α) : Json → Option (Option α)
  | null => some none
  | j => (read j).map some

end Json

end CodeAtlas
