/-!
How often each string occurs in a list, in order of the strings.
-/

namespace CodeAtlas.Text

/-- Counts one more occurrence of a string. -/
def Tally.add (s : String) : List (String × Nat) → List (String × Nat)
  | [] => [(s, 1)]
  | (t, n) :: rest =>
    if s = t then (t, n + 1) :: rest
    else if s < t then (s, 1) :: (t, n) :: rest
    else (t, n) :: Tally.add s rest

/-- The strings of a list, each once and in order, with the number of their occurrences. -/
def tally (strings : List String) : List (String × Nat) :=
  strings.foldl (fun counts s => Tally.add s counts) []

/-- Afterwards the strings are those that occurred before and the new one. -/
theorem Tally.mem_add {s t : String} {counts : List (String × Nat)} :
    t ∈ (Tally.add s counts).map (·.1) ↔ t = s ∨ t ∈ counts.map (·.1) := by
  induction counts with
  | nil => simp [Tally.add]
  | cons c rest ih =>
    obtain ⟨u, n⟩ := c
    unfold Tally.add
    split
    · subst s
      simp
    · split
      · simp
      · simp only [List.map_cons, List.mem_cons, ih]
        grind

end CodeAtlas.Text
