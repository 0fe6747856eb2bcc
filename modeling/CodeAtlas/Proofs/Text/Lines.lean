import CodeAtlas.Proofs.Text.Blank
import CodeAtlas.Proofs.Text.Path
import CodeAtlas.Text.Lines

/-!
# Places on lines

A place in a text lies on the line whose number is one more than that of the line feeds before it.
Where the character of the place is not blank, the text has a line with that number, and the line
holds it after what stands between the last line feed and the place.
-/

namespace CodeAtlas.Text

/-- The number of the line on which a place lies, counted from one. -/
def lineOf (cs : List Char) (place : Nat) : Nat :=
  (cs.take place).count '\n' + 1

/-- A character that is not blank ends no line. -/
theorem ne_of_notBlank {c : Char} (notBlank : isBlank c = false) : c ≠ '\n' ∧ c ≠ '\r' := by
  constructor <;> rintro rfl <;> revert notBlank <;> decide

/-- Without a separator the whole text is the piece after the last one. -/
theorem afterLast_of_notMem {sep : Char} {cs : List Char} (absent : sep ∉ cs) :
    afterLast sep cs = cs := by
  rw [afterLast, List.takeWhile_eq_self_iff.mpr, List.reverse_reverse]
  intro c member
  simpa using fun same : c = sep => absent (same ▸ List.mem_reverse.mp member)

/-- After a text that is empty or ends with the separator, the last piece takes nothing of it. -/
theorem mem_of_mem_afterLast {sep c : Char} {before rest : List Char}
    (ended : ∀ d, before.getLast? = some d → d = sep)
    (member : c ∈ afterLast sep (before ++ rest)) : c ∈ rest := by
  have inPiece {cs : List Char} (member : c ∈ afterLast sep cs) : c ∈ cs :=
    List.mem_reverse.mp ((List.takeWhile_sublist _).subset (List.mem_reverse.mp member))
  rcases List.eq_nil_or_concat before with rfl | ⟨earlier, d, rfl⟩
  · exact inPiece member
  · obtain rfl := ended d (by simp)
    rw [List.concat_eq_append, List.append_assoc, List.singleton_append, afterLast_append] at member
    exact inPiece member

theorem dropReturn_cases (line : List Char) :
    dropReturn line = line ∨ line = dropReturn line ++ ['\r'] := by
  unfold dropReturn
  split
  · next before reversed =>
    right
    rw [← List.reverse_reverse line, reversed, List.reverse_cons]
  · exact .inl rfl

section

variable {begun line : List Char} {c : Char}

/-- A line that goes on to a character keeps it unless it is a carriage return. -/
theorem prefix_dropReturn (notReturn : c ≠ '\r') (start : begun ++ [c] <+: line) :
    begun ++ [c] <+: dropReturn line := by
  rcases dropReturn_cases line with same | returned
  · rwa [same]
  · rw [returned, List.prefix_concat_iff] at start
    refine start.resolve_left fun whole => notReturn ?_
    exact List.singleton_inj.mp (List.append_inj_right' whole rfl)

/-- What has been read of a line is how that line begins. -/
theorem linesFrom_begins (rest : List Char) (notReturn : c ≠ '\r')
    (read : begun ++ [c] <+: line.reverse) :
    ∃ first others, linesFrom line rest = first :: others ∧ begun ++ [c] <+: first := by
  induction rest generalizing line with
  | nil =>
    have nonempty : line.isEmpty = false := by
      cases line with
      | nil => simp at read
      | cons d line => rfl
    exact ⟨line.reverse, [], by simp [linesFrom, nonempty], read⟩
  | cons d rest ih =>
    by_cases feed : d = '\n'
    · exact ⟨dropReturn line.reverse, linesFrom [] rest, by simp [linesFrom, feed],
        prefix_dropReturn notReturn read⟩
    · have further : begun ++ [c] <+: (d :: line).reverse := by
        rw [List.reverse_cons]
        exact read.trans (List.prefix_append _ _)
      obtain ⟨first, others, split, start⟩ := ih further
      exact ⟨first, others, by simpa [linesFrom, feed] using split, start⟩

end

/-- The line after as many line feeds as stand before a character holds the character, after what
stands between the last of them and it. -/
theorem linesFrom_holds {c : Char} (notFeed : c ≠ '\n') (notReturn : c ≠ '\r')
    (line before after : List Char) (oneLine : '\n' ∉ line) :
    ∃ found, (linesFrom line (before ++ c :: after))[before.count '\n']? = some found ∧
      afterLast '\n' (line.reverse ++ before) ++ [c] <+: found := by
  -- Along the text before the character, `line` is what has been read of the current line.
  induction before generalizing line with
  | nil =>
    have read : line.reverse ++ [c] <+: (c :: line).reverse := by
      simp
    obtain ⟨first, others, split, start⟩ := linesFrom_begins after notReturn read
    refine ⟨first, by simp [linesFrom, notFeed, split], ?_⟩
    rwa [List.append_nil, afterLast_of_notMem (mt List.mem_reverse.mp oneLine)]
  | cons d before ih =>
    by_cases feed : d = '\n'
    · obtain ⟨found, here, start⟩ := ih [] List.not_mem_nil
      refine ⟨found, by simpa [linesFrom, feed] using here, ?_⟩
      rwa [feed, afterLast_append]
    · have stillOneLine : '\n' ∉ d :: line := by
        rw [List.mem_cons, not_or]
        exact ⟨Ne.symm feed, oneLine⟩
      obtain ⟨found, here, start⟩ := ih (d :: line) stillOneLine
      refine ⟨found, by simpa [linesFrom, feed] using here, ?_⟩
      simpa using start

section

variable {cs : List Char} {place : Nat} {c : Char}

/-- The line of a place holds what the text has there. -/
theorem exists_line (here : cs[place]? = some c) (notBlank : isBlank c = false) :
    ∃ line, (lines cs)[lineOf cs place - 1]? = some line ∧
      afterLast '\n' (cs.take place) ++ [c] <+: line := by
  obtain ⟨notFeed, notReturn⟩ := ne_of_notBlank notBlank
  obtain ⟨inside, rfl⟩ := List.getElem?_eq_some_iff.mp here
  have holds := linesFrom_holds notFeed notReturn [] (cs.take place) (cs.drop (place + 1))
    List.not_mem_nil
  rw [← List.drop_eq_getElem_cons inside, List.take_append_drop] at holds
  exact holds

/-- The line of a place is one of the lines. -/
theorem lineOf_le (here : cs[place]? = some c) (notBlank : isBlank c = false) :
    lineOf cs place ≤ (lines cs).length := by
  obtain ⟨line, found, -⟩ := exists_line here notBlank
  obtain ⟨inside, -⟩ := List.getElem?_eq_some_iff.mp found
  exact inside

/-- A character with nothing but blanks before it on its line is the line's first that is not
blank. -/
theorem exists_line_first (here : cs[place]? = some c) (notBlank : isBlank c = false)
    (blanks : ∀ d ∈ afterLast '\n' (cs.take place), isBlank d = true) :
    ∃ line, (lines cs)[lineOf cs place - 1]? = some line ∧ (trimStart line).head? = some c := by
  obtain ⟨line, found, rest, rfl⟩ := exists_line here notBlank
  refine ⟨_, found, ?_⟩
  rw [List.append_assoc, trimStart_blanks blanks (by simpa using notBlank)]
  rfl

end

end CodeAtlas.Text
