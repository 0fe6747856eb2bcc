/-!
Sets of code points written as runs. A run is a first code point, a last one and a step, so
`(65, 90, 1)` is the capital Latin letters and `(256, 302, 2)` every second code point of a block
in which capitals and small letters alternate. The character classes of this library are lists of
such runs.
-/

namespace CodeAtlas.Text

/-- A set of code points as runs `(first, last, step)`. -/
abbrev Runs := List (Nat × Nat × Nat)

/-- Whether the code point lies on a run of the set. -/
def Runs.has (runs : Runs) (point : Nat) : Bool :=
  runs.any fun (first, last, step) =>
    decide (first ≤ point) && decide (point ≤ last) && (point - first) % step == 0

end CodeAtlas.Text
