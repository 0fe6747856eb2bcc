import CodeAtlas.Scalar

/-!
Sums of weights by key, in order of the keys.
-/

namespace CodeAtlas.Clustering

/-- Weights by key; the keys are in order and each occurs once. -/
abbrev Weights (κ α : Type) := List (κ × α)

namespace Weights

variable {κ α : Type} [Ord κ] [Scalar α]

/-- Adds to the weight of a key. -/
def add (key : κ) (w : α) : Weights κ α → Weights κ α
  | [] => [(key, Scalar.zero + w)]
  | (k, v) :: rest =>
    match compare key k with
    | .lt => (key, Scalar.zero + w) :: (k, v) :: rest
    | .eq => (k, v + w) :: rest
    | .gt => (k, v) :: add key w rest

/-- The weight of a key, zero where it has none. -/
def weight (key : κ) : Weights κ α → α
  | [] => Scalar.zero
  | (k, v) :: rest =>
    match compare key k with
    | .eq => v
    | _ => weight key rest

end Weights

/-- Pairs of numbers, in order of their first and then of their second parts. -/
structure Pair where
  first : Nat
  second : Nat
  deriving Repr, DecidableEq, Inhabited

instance : Ord Pair where
  compare a b := (compare a.first b.first).then (compare a.second b.second)

/-- The pair of two numbers, the lesser first. -/
def Pair.of (a b : Nat) : Pair :=
  ⟨min a b, max a b⟩

end CodeAtlas.Clustering
