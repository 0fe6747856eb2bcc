import CodeAtlas.Proofs.Pattern.Anchored
import CodeAtlas.Proofs.Source.Plain
import CodeAtlas.Proofs.Text.Blank
import Mathlib.Data.List.TakeWhile
import Mathlib.Order.CompletePartialOrder
import Mathlib.Order.Interval.Set.Disjoint

/-!
# Python scopes nest

The end of a Python block is looked for from its header on, for each block by itself. A search that
passes over the header of another block goes on from there as a search with the same indentation
would; and the deeper a block is indented, the sooner it ends. So a block that reaches a header
reaches the end of its block too: of two declarations in one source, one lies within the other or
they have no line in common.
-/

namespace CodeAtlas

namespace Declaration

/-- The lines that a declaration spans. -/
def lines (d : Declaration) : Set Nat :=
  Set.Icc d.lineStart d.lineEnd

/-- Of any two of the declarations, one lies within the other or they have no line in common. -/
def Laminar (ds : List Declaration) : Prop :=
  ∀ d ∈ ds, ∀ e ∈ ds, Disjoint d.lines e.lines ∨ d.lines ⊆ e.lines ∨ e.lines ⊆ d.lines

end Declaration

namespace Source

/-- A line that is neither blank nor a comment. -/
def HasCode (line : List Char) : Prop :=
  ∃ c rest, Text.trimStart line = c :: rest ∧ c ≠ '#'

/-! ### The ends of blocks -/

section Ends

variable {indent last line : Nat} {next : List Char} {rest : List (List Char)}

theorem indentEnd_of_code (code : HasCode next) :
    indentEnd indent last line (next :: rest) =
      if indentation next ≤ indent then last else indentEnd indent (line + 1) (line + 1) rest := by
  obtain ⟨c, more, trimmed, noComment⟩ := code
  simp only [indentEnd, trimmed, noComment, if_false]

theorem indentEnd_of_not_code (noCode : ¬ HasCode next) :
    indentEnd indent last line (next :: rest) = indentEnd indent last (line + 1) rest := by
  rw [indentEnd]
  split
  · rfl
  · next c more trimmed =>
    have comment : c = '#' := by
      by_contra other
      exact noCode ⟨c, more, trimmed, other⟩
    rw [if_pos comment]

/-- A block ends before a line with code, or it ends where a block with the same indentation would
end whose header is that line. -/
theorem indentEnd_append (indent : Nat) (reached : last ≤ line) (code : HasCode next)
    (rest skipped : List (List Char)) :
    indentEnd indent last line (skipped ++ next :: rest) ≤ line + skipped.length ∨
      indent < indentation next ∧
        indentEnd indent last line (skipped ++ next :: rest) =
          indentEnd indent (line + skipped.length + 1) (line + skipped.length + 1) rest := by
  induction skipped generalizing last line with
  | nil =>
    rw [List.nil_append, indentEnd_of_code code]
    split
    · exact .inl reached
    · next deeper => exact .inr ⟨Nat.lt_of_not_le deeper, rfl⟩
  | cons first skipped ih =>
    have shift : line + (first :: skipped).length = line + 1 + skipped.length := by
      rw [List.length_cons]
      omega
    rw [List.cons_append, shift]
    by_cases here : HasCode first
    · rw [indentEnd_of_code here]
      split
      · exact .inl (by omega)
      · exact ih (Nat.le_refl _)
    · rw [indentEnd_of_not_code here]
      exact ih (by omega)

/-- A block that is indented more deeply ends no later. -/
theorem indentEnd_antitone {deeper : Nat} (less : indent ≤ deeper) (reached : last ≤ line)
    (rest : List (List Char)) :
    indentEnd deeper last line rest ≤ indentEnd indent last line rest := by
  induction rest generalizing last line with
  | nil => exact Nat.le_refl _
  | cons next rest ih =>
    by_cases code : HasCode next
    · rw [indentEnd_of_code code, indentEnd_of_code code]
      by_cases shallow : indentation next ≤ indent
      · rw [if_pos shallow, if_pos (shallow.trans less)]
      · rw [if_neg shallow]
        split
        · exact (Nat.le_succ_of_le reached).trans (le_indentEnd _ _ _ _ (Nat.le_refl _))
        · exact ih (Nat.le_refl _)
    · rw [indentEnd_of_not_code code, indentEnd_of_not_code code]
      exact ih (Nat.le_succ_of_le reached)

end Ends

section Blocks

variable {lines : List (List Char)} {header later : Nat} {next : List Char}

theorem lt_indentedEnd (lines : List (List Char)) (header indent : Nat) :
    header < indentedEnd lines header indent :=
  le_indentEnd _ _ _ _ (Nat.le_refl _)

theorem indentedEnd_antitone {indent deeper : Nat} (less : indent ≤ deeper)
    (lines : List (List Char)) (header : Nat) :
    indentedEnd lines header deeper ≤ indentedEnd lines header indent :=
  indentEnd_antitone less (Nat.le_refl _) _

/-- A block that reaches a line with code is indented less and ends where a block with the same
indentation would end whose header is that line. -/
theorem indentedEnd_reaches (indent : Nat) (after : header < later)
    (found : lines[later]? = some next) (code : HasCode next) :
    indentedEnd lines header indent ≤ later ∨
      indent < indentation next ∧
        indentedEnd lines header indent = indentedEnd lines later indent := by
  obtain ⟨inside, rfl⟩ := List.getElem?_eq_some_iff.mp found
  obtain ⟨k, rfl⟩ : ∃ k, later = header + 1 + k := ⟨later - (header + 1), by omega⟩
  have onwards : (lines.drop (header + 1)).drop k =
      lines[header + 1 + k] :: lines.drop (header + 1 + k + 1) := by
    rw [List.drop_drop, List.drop_eq_getElem_cons inside]
  have count : ((lines.drop (header + 1)).take k).length = k := by
    rw [List.length_take, List.length_drop]
    omega
  have ends := indentEnd_append indent (Nat.le_refl (header + 1)) code
    (lines.drop (header + 1 + k + 1)) ((lines.drop (header + 1)).take k)
  rwa [← onwards, List.take_append_drop, count] at ends

end Blocks

namespace Python

open Pattern

/-! ### Headers -/

theorem hasCode_of_blanks {blank rest : List Char} {c : Char}
    (all : ∀ d ∈ blank, Text.isBlank d = true) (notBlank : Text.isBlank c = false)
    (noComment : c ≠ '#') :
    HasCode (blank ++ c :: rest) ∧ indentation (blank ++ c :: rest) = indentation blank := by
  have stops : ∀ d, (c :: rest).head? = some d → Text.isBlank d = false := by
    rintro d same
    obtain rfl := Option.some.inj same
    exact notBlank
  refine ⟨⟨c, rest, Text.trimStart_blanks all stops, noComment⟩, ?_⟩
  have alone : blank.takeWhile Text.isBlank = blank := List.takeWhile_eq_self_iff.mpr all
  rw [indentation, indentation, Text.takeWhile_blanks all stops, alone]

/-- The words with which headers begin start with neither a blank nor the sign of a comment. -/
theorem starts_of_word {word : String} (known : word ∈ ["class", "async", "def"]) :
    ∃ c more, word.toList = c :: more ∧ Text.isBlank c = false ∧ c ≠ '#' := by
  simp only [List.mem_cons, List.not_mem_nil, or_false] at known
  rcases known with rfl | rfl | rfl
  · exact ⟨'c', ['l', 'a', 's', 's'], by decide⟩
  · exact ⟨'a', ['s', 'y', 'n', 'c'], by decide⟩
  · exact ⟨'d', ['e', 'f'], by decide⟩

/-- A pattern that takes blanks into its first group and goes on with one of the words fits lines
with code, and the blanks are their indentation. -/
theorem indented_of_search {ps : List Pattern} {line : List Char} {m : Match}
    (found : (sequence (textStart :: group 1 blanks :: ps)).search line = some m)
    (without : ∀ p ∈ ps, Without 1 p)
    (goesOn : ∀ {here : Place} {next : Place → Option Match},
      (sequence ps).run here next = some m →
        ∃ word ∈ ["class", "async", "def"], word.toList <+: here.rest) :
    HasCode line ∧ width m 1 = indentation line := by
  obtain ⟨blank, _, here, rfl, all, text, rfl, readOn⟩ := search_indented found without
  obtain ⟨word, known, rest, split⟩ := goesOn readOn
  obtain ⟨c, more, letters, notBlank, noComment⟩ := starts_of_word known
  rw [← split, letters, List.cons_append, width, text]
  obtain ⟨code, indented⟩ := hasCode_of_blanks all notBlank noComment
  exact ⟨code, indented.symm⟩

theorem class_indented {line : List Char} {m : Match} (found : classHeader.search line = some m) :
    HasCode line ∧ width m 1 = indentation line := by
  refine indented_of_search found ?_ ?_
  · simp [Without, blanks, blanks1, atLeastOne, name, char, noneOf, Pattern.optional]
  · intro here next readOn
    rw [run_sequence, run_literal] at readOn
    split at readOn
    · next starts => exact ⟨"class", by simp, starts⟩
    · cases readOn

theorem function_indented {line : List Char} {m : Match}
    (found : functionHeader.search line = some m) :
    HasCode line ∧ width m 1 = indentation line := by
  refine indented_of_search found ?_ ?_
  · simp [Without, blanks, blanks1, atLeastOne, name, char, Pattern.optional]
  · intro here next readOn
    rw [run_sequence] at readOn
    simp only [Pattern.optional, run, run_sequence, run_literal] at readOn
    by_cases isAsync : "async".toList <+: here.rest
    · exact ⟨"async", by simp, isAsync⟩
    · rw [if_neg isAsync] at readOn
      simp only at readOn
      split at readOn
      · next starts => exact ⟨"def", by simp, starts⟩
      · cases readOn

/-- A capital is neither a blank nor the sign of a comment. -/
theorem starts_of_upper {c : Char} (upper : c.isUpper = true) :
    Text.isBlank c = false ∧ c ≠ '#' := by
  obtain ⟨least, most⟩ : 65 ≤ c.toNat ∧ c.toNat ≤ 90 := of_decide_eq_true upper
  refine ⟨?_, ?_⟩
  · rw [← Bool.not_eq_true, Text.isBlank]
    simp
    omega
  · rintro rfl
    exact absurd least (by decide)

/-- A constant begins its line, and its name is in capitals. -/
theorem constant_indented {line : List Char} {m : Match}
    (found : constantHeader.search line = some m) : HasCode line := by
  have readOn := search_of_textStart found
  rw [run_sequence] at readOn
  simp only [run] at readOn
  split at readOn
  · next c rest split =>
    obtain rfl : line = c :: rest := split
    split at readOn
    · next upper =>
      obtain ⟨notBlank, noComment⟩ := starts_of_upper upper
      exact (hasCode_of_blanks (List.forall_mem_nil _) notBlank noComment).1
    · cases readOn
  · cases readOn

theorem header_indented {line : List Char} {h : Header} (found : header? line = some h) :
    HasCode line ∧ (h.kind ≠ .binding → h.indent = indentation line) := by
  unfold header? at found
  split at found
  · next m isClass =>
    obtain rfl := Option.some.inj found
    exact (class_indented isClass).imp_right fun indented _ => indented
  · split at found
    · next m isFunction =>
      obtain rfl := Option.some.inj found
      exact (function_indented isFunction).imp_right fun indented _ => indented
    · obtain ⟨m, isConstant, rfl⟩ := Option.map_eq_some_iff.mp found
      exact ⟨constant_indented isConstant, fun other => absurd rfl other⟩

/-! ### Declarations of one source -/

/-- A declaration has its header on the line after `before` lines and is as long as that says. -/
structure Heads (all : List (List Char)) (before : Nat) (d : Declaration) : Prop where
  header : ∃ line h, all[before]? = some line ∧ header? line = some h ∧ d.lineEnd =
    if h.kind = .binding then before + 1 else indentedEnd all before h.indent
  start : d.lineStart = before + 1

section Heads

variable {all : List (List Char)} {i j : Nat} {d e : Declaration}

/-- Every declaration has its header on some line. -/
theorem declarationsFrom_heads (member : d ∈ declarationsFrom all 0 all) : ∃ i, Heads all i d := by
  obtain ⟨line, i, h, numbered, found, rfl⟩ := exists_header member
  exact ⟨i, ⟨line, h, List.mem_zipIdx_iff_getElem?.mp numbered, found, rfl⟩, rfl⟩

theorem Heads.start_le (heads : Heads all i d) : d.lineStart ≤ d.lineEnd := by
  obtain ⟨⟨line, h, -, -, last⟩, start⟩ := heads
  rw [start, last]
  split
  · exact Nat.le_refl _
  · exact lt_indentedEnd all i h.indent

/-- What a line declares is as long as its header says. -/
theorem Heads.lines_eq (heads : Heads all i d) (heads' : Heads all i e) : d.lines = e.lines := by
  obtain ⟨⟨line, h, here, found, last⟩, start⟩ := heads
  obtain ⟨⟨line', h', here', found', last'⟩, start'⟩ := heads'
  obtain rfl := Option.some.inj (here.symm.trans here')
  obtain rfl := Option.some.inj (found.symm.trans found')
  rw [Declaration.lines, Declaration.lines, start, start', last, last']

/-- A declaration that starts before another one ends before it or no earlier than it. -/
theorem Heads.ends (heads : Heads all i d) (heads' : Heads all j e) (before : i < j) :
    d.lineEnd < e.lineStart ∨ e.lineEnd ≤ d.lineEnd := by
  obtain ⟨⟨line, h, here, found, last⟩, start⟩ := heads
  obtain ⟨⟨next, h', later, found', last'⟩, start'⟩ := heads'
  obtain ⟨code, indented⟩ := header_indented found'
  by_cases single : h.kind = .binding
  · rw [if_pos single] at last
    exact .inl (by omega)
  · rw [if_neg single] at last
    rcases indentedEnd_reaches h.indent before later code with stops | ⟨deeper, same⟩
    · exact .inl (by omega)
    · refine .inr ?_
      rw [last, last', same]
      by_cases single' : h'.kind = .binding
      · rw [if_pos single']
        exact lt_indentedEnd all j h.indent
      · rw [if_neg single', indented single']
        exact indentedEnd_antitone deeper.le all j

theorem Heads.within (heads : Heads all i d) (heads' : Heads all j e)
    (early : d.lineStart ≤ e.lineStart) : Disjoint d.lines e.lines ∨ e.lines ⊆ d.lines := by
  have order : i ≤ j := by
    rw [heads.start, heads'.start] at early
    omega
  rcases Nat.eq_or_lt_of_le order with rfl | before
  · exact .inr (heads.lines_eq heads').symm.subset
  · rcases heads.ends heads' before with apart | reaches
    · refine .inl (Set.disjoint_left.mpr ?_)
      intro line inD inE
      exact absurd (inD.2.trans_lt apart) (not_lt.mpr inE.1)
    · exact .inr (Set.Icc_subset_Icc early reaches)

end Heads

end Python

section

variable {content path : String} (python : Language.ofPath? path = some .python)
  {d e : Declaration} (member : d ∈ (parse content path).declarations)
  (member' : e ∈ (parse content path).declarations)

include python member

theorem exists_heads : ∃ i, Python.Heads (Text.lines content.toList) i d := by
  have inOutline : d ∈ Python.declarations (Text.lines content.toList) := by
    simpa [parse, python, read, Language.usesBraces] using member
  exact Python.declarationsFrom_heads ((Declaration.distinct_sublist [] _).subset inOutline)

theorem start_le_of_python : d.lineStart ≤ d.lineEnd := by
  obtain ⟨i, heads⟩ := exists_heads python member
  exact heads.start_le

include member'

/-- Of two declarations in a text under a Python path, the one that starts later lies within the
other or they have no line in common. -/
theorem within_of_python (early : d.lineStart ≤ e.lineStart) :
    Disjoint d.lines e.lines ∨ e.lines ⊆ d.lines := by
  obtain ⟨i, heads⟩ := exists_heads python member
  obtain ⟨j, heads'⟩ := exists_heads python member'
  exact heads.within heads' early

end

/-- The declarations in a text under a Python path are nested. -/
theorem parse_laminar {content path : String} (python : Language.ofPath? path = some .python) :
    Declaration.Laminar (parse content path).declarations := by
  intro d member e member'
  rcases Nat.le_total d.lineStart e.lineStart with early | late
  · exact (within_of_python python member member' early).imp_right .inr
  · exact (within_of_python python member' member late).imp (fun apart => apart.symm) .inl

end Source

end CodeAtlas
