import CodeAtlas.Proofs.Pattern.First

/-!
# Patterns at the start of a text

A pattern that asks for the start of the text is read there or nowhere, and a group keeps what it
has taken as long as no other group of its number is read. So a pattern that begins with a group of
blanks finds in it the blanks before what its next part reads.
-/

namespace CodeAtlas.Pattern

/-! ### Groups that are not taken again -/

/-- No group of the pattern has a number. -/
def Without (number : Nat) : Pattern → Prop
  | seq p q => Without number p ∧ Without number q
  | alt p q => Without number p ∧ Without number q
  | many p => Without number p
  | few p => Without number p
  | group n p => n ≠ number ∧ Without number p
  | _ => True

variable {number : Nat} {p : Pattern} {ps : List Pattern} {here there : Place} {cs : List Char}
  {m : Match}

/-- What a group has taken last is the same after a reading without groups of its number. -/
theorem Reads.find?_groups (reading : Reads p here there) (without : Without number p) :
    there.groups.find? (·.1 == number) = here.groups.find? (·.1 == number) := by
  induction reading with
  | seq _ _ ihp ihq => exact (ihq without.2).trans (ihp without.1)
  | altLeft _ ih => exact ih without.1
  | altRight _ ih => exact ih without.2
  | manyMore _ _ ihp ihq | fewMore _ _ ihp ihq => exact (ihq without).trans (ihp without)
  | group _ ih =>
    rw [List.find?_cons_of_neg (by simpa using without.1)]
    exact ih without.2
  | one | empty | manyStop | fewStop | textStart | textEnd | lineStart | wordEdge => rfl

@[simp] theorem without_sequence (ps : List Pattern) :
    Without number (sequence ps) ↔ ∀ p ∈ ps, Without number p := by
  fun_induction sequence ps with
  | case1 => simp [Without]
  | case2 p => simp
  | case3 p rest _ ih => simp [Without, ih]

@[simp] theorem without_literal (s : String) : Without number (literal s) := by
  simp [literal, char, Without]

/-! ### The start of a text -/

theorem run_textStart {β : Type} (ps : List Pattern) (here : Place) (next : Place → Option β) :
    (sequence (textStart :: ps)).run here next =
      if here.before.isNone then (sequence ps).run here next else none := by
  rw [run_sequence, run]

/-- What is anchored at the start of the text is not found anywhere else. -/
theorem search_of_textStart (found : (sequence (textStart :: ps)).search cs = some m) :
    (sequence ps).run (Place.ofText cs) (fun there => some ⟨0, there⟩) = some m := by
  have first : ∀ m', (sequence (textStart :: ps)).matchAt (Place.ofText cs) = some m' →
      (sequence ps).run (Place.ofText cs) (fun there => some ⟨0, there⟩) = some m' := by
    intro m' here
    have atStart : (Place.ofText cs).before.isNone = true := rfl
    rwa [matchAt, run_textStart, if_pos atStart] at here
  cases cs with
  | nil => exact first m found
  | cons c rest =>
    rw [search, searchFrom] at found
    split at found
    · next m' here =>
      obtain rfl := Option.some.inj found
      exact first m' here
    · have behind (t : List Char) (_ : t <+: ((Place.ofText (c :: rest)).step c rest).rest) :
          Fails (sequence (textStart :: ps)) (((Place.ofText (c :: rest)).step c rest).past t) := by
        refine Fails.sequence (Fails.textStart ?_) ps
        cases last : t.getLast? <;> simp [Place.step, last]
      have none := Fails.searchFrom behind
      cases none.symm.trans found

/-- A pattern that begins with a group of blanks takes blanks into the group and is read on from
there. -/
theorem search_indented
    (found : (sequence (textStart :: group number blanks :: ps)).search cs = some m)
    (without : ∀ p ∈ ps, Without number p) : ∃ taken rest place, cs = taken ++ rest ∧
      (∀ c ∈ taken, Text.isBlank c = true) ∧ m.text number = taken ∧ place.rest = rest ∧
        (sequence ps).run place (fun there => some ⟨0, there⟩) = some m := by
  have start := search_of_textStart found
  rw [run_sequence] at start
  obtain ⟨mid, taking, readOn⟩ := run_sound start
  cases taking with
  | @group _ _ _ there inner =>
    obtain ⟨taken, ⟨rfl, rest, split⟩, all⟩ := inner.characters_take
    have split : cs = taken ++ rest := split.symm
    subst split
    obtain ⟨last, reading, ended⟩ := run_sound readOn
    obtain rfl := Option.some.inj ended
    have kept := reading.find?_groups ((without_sequence ps).mpr without)
    refine ⟨taken, rest, _, rfl, all, ?_, ?_, readOn⟩
    · simp [Match.text, Match.span?, kept, Span.text, Place.ofText]
    · exact Place.past_rest rfl

end CodeAtlas.Pattern
