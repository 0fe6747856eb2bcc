import CodeAtlas.Proofs.Pattern.First
import CodeAtlas.Proofs.Pattern.Matches
import CodeAtlas.Proofs.Text.Lines
import CodeAtlas.Proofs.Text.Order
import CodeAtlas.Source.Reading

/-!
# The lines of import statements

The pattern of an import may take blank lines before the statement. The line that an import carries
is nevertheless that of the statement's first character that is not blank: it is a line of the text,
and the statement is the first thing on it. Every statement that a pattern reads is reported so, and
nothing else is.
-/

namespace CodeAtlas

open Pattern

namespace Pattern

/-! ### Where a statement begins -/

/-- Whatever the pattern takes begins with a character that is not blank. -/
def Opens (p : Pattern) : Prop :=
  ∀ {here there : Place}, Reads p here there →
    here.offset < there.offset ∧ ∃ c, here.rest.head? = some c ∧ Text.isBlank c = false

theorem opens_literal {s : String} {c : Char} {cs : List Char} (letters : s.toList = c :: cs)
    (notBlank : Text.isBlank c = false) : Opens (literal s) := by
  intro here there reading
  rw [literal, letters, List.map_cons] at reading
  obtain ⟨mid, first, others⟩ := reading.sequence_cons
  obtain ⟨d, ⟨rfl, rest, split⟩, same⟩ := first.one_takes
  obtain rfl : d = c := by simpa using same
  have further := others.offset_le
  rw [Place.past_offset] at further
  exact ⟨further, d, by simp [← split], notBlank⟩

theorem opens_oneOf {ps : List Pattern} (all : ∀ p ∈ ps, Opens p) : Opens (oneOf ps) := by
  fun_induction oneOf ps with
  | case1 =>
    intro here there reading
    cases reading with
    | one _ accepted => cases accepted
  | case2 p => exact all p List.mem_cons_self
  | case3 p rest _ ih =>
    intro here there reading
    cases reading with
    | altLeft reading => exact all p List.mem_cons_self reading
    | altRight reading => exact ih (fun q later => all q (List.mem_cons_of_mem p later)) reading

/-- A match in a text is a statement: it begins on a line of its own, and `first` is the place of
its first character that is not blank. -/
structure Match.Statement (m : Match) (p : Pattern) (cs : List Char) (first : Nat) : Prop where
  found : m ∈ p.matchesIn cs
  newLine : ∀ c, (cs.take m.start).getLast? = some c → c = '\n'
  blanks : ∃ blank, cs.take first = cs.take m.start ++ blank ∧ ∀ c ∈ blank, Text.isBlank c = true
  notBlank : ∃ c, cs[first]? = some c ∧ Text.isBlank c = false
  start_le : m.start ≤ first
  first_lt : first < m.stop.offset

/-- A pattern of a line that opens with something else than blanks reads statements. -/
theorem exists_statement {p : Pattern} {ps : List Pattern} {cs : List Char} {m : Match}
    (opens : Opens p) (found : m ∈ (sequence (lineStart :: blanks :: p :: ps)).matchesIn cs) :
    ∃ first, m.Statement (sequence (lineStart :: blanks :: p :: ps)) cs first := by
  obtain ⟨start, of⟩ := matchesIn_of found
  obtain ⟨_, atLine, reading⟩ := of.reading.sequence_cons
  obtain ⟨here, blank, reading⟩ := reading.sequence_cons
  obtain ⟨there, opening, others⟩ := reading.sequence_cons
  obtain ⟨further, c, starts, notBlank⟩ := opens opening
  cases atLine with
  | lineStart newLine =>
    -- The blanks may reach over several lines; only the place behind them is looked at.
    obtain ⟨taken, ⟨rfl, prefixed⟩, all⟩ := blank.characters_take
    have inText : (start.past taken).In cs := blank.in_text of.inText
    rw [of.inText.before_eq, ← of.start_eq] at newLine
    rw [inText.rest_eq, List.head?_drop] at starts
    refine ⟨(start.past taken).offset, found, fun d last => ?_, ⟨taken, ?_, all⟩,
      ⟨c, starts, notBlank⟩, ?_, Nat.lt_of_lt_of_le further others.offset_le⟩
    · rcases newLine with none | feed
      · cases none.symm.trans last
      · exact (Option.some.inj (feed.symm.trans last)).symm
    · rw [of.inText.rest_eq] at prefixed
      rw [Place.past_offset, List.take_add, of.start_eq, ← List.prefix_iff_eq_take.mp prefixed]
    · rw [of.start_eq, Place.past_offset]
      exact Nat.le_add_right _ _

end Pattern

/-! ### Forms of imports -/

/-- A form of import statement: its pattern, and the imports that a statement on a line stands
for. -/
structure ImportForm where
  pattern : Pattern
  imports : Match → Nat → List Import

/-- Whatever a form reads is a statement, whose imports carry the line that is given for it. -/
structure ImportForm.Regular (form : ImportForm) : Prop where
  statement : ∀ {cs : List Char} {m : Match}, m ∈ form.pattern.matchesIn cs →
    ∃ first, m.Statement form.pattern cs first
  own : ∀ m line, ∀ i ∈ form.imports m line, i.line = line

/-- A statement of a text stands for an import. The import carries the number of the line on which
the first character of the statement stands, and only blanks stand before it on that line. -/
def Import.Stated (forms : List ImportForm) (cs : List Char) (i : Import) : Prop :=
  ∃ form ∈ forms, ∃ m first, m.Statement form.pattern cs first ∧ i ∈ form.imports m i.line ∧
    i.line = Text.lineOf cs first ∧
      ∃ line, (Text.lines cs)[i.line - 1]? = some line ∧ (Text.trimStart line).head? = cs[first]?

theorem Import.Stated.line_le {forms : List ImportForm} {cs : List Char} {i : Import}
    (stated : i.Stated forms cs) :
    1 ≤ i.line ∧ i.line ≤ (Text.lines cs).length := by
  obtain ⟨form, -, m, first, statement, -, line, -⟩ := stated
  obtain ⟨c, here, notBlank⟩ := statement.notBlank
  rw [line]
  exact ⟨Nat.le_add_left 1 _, Text.lineOf_le here notBlank⟩

namespace Source

section

variable {p : Pattern} {cs : List Char} {m : Match} {first : Nat}

/-- The line that is looked up from where the match starts is that of the statement. -/
theorem lineNumber_eq (statement : m.Statement p cs first) :
    lineNumber cs m.start = Text.lineOf cs first := by
  obtain ⟨blank, taken, all⟩ := statement.blanks
  have left : cs.drop m.start = blank ++ cs.drop first := by
    rw [← List.append_right_inj (cs.take m.start), List.take_append_drop, ← List.append_assoc,
      ← taken, List.take_append_drop]
  have stops : ∀ d, (cs.drop first).head? = some d → Text.isBlank d = false := by
    intro d starts
    obtain ⟨c, here, notBlank⟩ := statement.notBlank
    rw [List.head?_drop, here] at starts
    rwa [← Option.some.inj starts]
  rw [lineNumber, left, Text.takeWhile_blanks all stops, Text.lineOf, taken, List.count_append]

/-- A statement is the first thing on its line. -/
theorem exists_line_of_statement (statement : m.Statement p cs first) :
    ∃ line, (Text.lines cs)[Text.lineOf cs first - 1]? = some line ∧
      (Text.trimStart line).head? = cs[first]? := by
  obtain ⟨blank, taken, all⟩ := statement.blanks
  obtain ⟨c, here, notBlank⟩ := statement.notBlank
  rw [here]
  refine Text.exists_line_first here notBlank fun d before => ?_
  rw [taken] at before
  exact all d (Text.mem_of_mem_afterLast statement.newLine before)

end

/-- What all statements of some forms stand for, in order of the lines. -/
def importsOf (forms : List ImportForm) (content : List Char) : List Import :=
  (forms.flatMap fun form => (form.pattern.matchesIn content).flatMap fun m =>
    form.imports m (lineNumber content m.start)).mergeSort fun a b => a.line ≤ b.line

section

variable {forms : List ImportForm} {cs : List Char} {i : Import}

theorem importsOf_sorted (forms : List ImportForm) (cs : List Char) :
    (importsOf forms cs).Pairwise fun a b => a.line ≤ b.line :=
  Text.mergeSort_keys Import.line _

/-- The imports are what the statements of the text stand for. -/
theorem mem_importsOf_iff (regular : ∀ form ∈ forms, form.Regular) :
    i ∈ importsOf forms cs ↔ i.Stated forms cs := by
  rw [importsOf, List.mem_mergeSort]
  simp only [List.mem_flatMap]
  constructor
  · rintro ⟨form, known, m, found, member⟩
    obtain ⟨first, statement⟩ := (regular form known).statement found
    have line : i.line = Text.lineOf cs first := by
      rw [(regular form known).own m _ i member, lineNumber_eq statement]
    rw [lineNumber_eq statement, ← line] at member
    have stands := exists_line_of_statement statement
    rw [← line] at stands
    exact ⟨form, known, m, first, statement, member, line, stands⟩
  · rintro ⟨form, known, m, first, statement, member, line, -⟩
    rw [line, ← lineNumber_eq statement] at member
    exact ⟨form, known, m, statement.found, member⟩

end

/-! ### The forms of the languages -/

/-- The forms of scripts: named imports, imports for their effect, and required modules. -/
def Script.importForms : List ImportForm :=
  [⟨importFrom, fun m line => [⟨importNames (m.text 1), m.string 2, line⟩]⟩,
    ⟨importBare, fun m line => [⟨[], m.string 1, line⟩]⟩,
    ⟨importRequire, fun m line => [⟨importNames (m.text 1), m.string 2, line⟩]⟩]

/-- The forms of Python sources: named imports and imports of whole modules. -/
def Python.importForms : List ImportForm :=
  [⟨importFrom, fun m line => [⟨importNames (m.text 2), m.string 1, line⟩]⟩,
    ⟨importModules, fun m line =>
      (Text.splitAt ',' (m.text 1)).filterMap (moduleImport? line)⟩]

/-- The forms of import of a language. -/
def importForms (language : Language) : List ImportForm :=
  if language.usesBraces then Script.importForms else Python.importForms

theorem Script.imports_eq (content : List Char) :
    Script.imports content = importsOf Script.importForms content := by
  simp [Script.imports, importsOf, Script.importForms, List.map_eq_flatMap]

theorem Python.imports_eq (content : List Char) :
    Python.imports content = importsOf Python.importForms content := by
  simp [Python.imports, importsOf, Python.importForms, List.map_eq_flatMap]

theorem read_imports (language : Language) (content : List Char) :
    (read language content).imports = importsOf (importForms language) content := by
  cases braces : language.usesBraces with
  | true => simp [read, importForms, braces, Script.imports_eq]
  | false => simp [read, importForms, braces, Python.imports_eq]

theorem Script.importForms_regular : ∀ form ∈ Script.importForms, form.Regular := by
  have importWord : Opens (literal "import") :=
    opens_literal (c := 'i') rfl (by decide)
  have binderWord : Opens binder := by
    refine opens_oneOf ?_
    simp only [List.map_cons, List.map_nil, List.forall_mem_cons]
    exact ⟨opens_literal (c := 'c') rfl (by decide), opens_literal (c := 'l') rfl (by decide),
      opens_literal (c := 'v') rfl (by decide), fun _ none => absurd none List.not_mem_nil⟩
  simp only [Script.importForms, List.forall_mem_cons]
  exact ⟨⟨exists_statement importWord, by simp⟩, ⟨exists_statement importWord, by simp⟩,
    ⟨exists_statement binderWord, by simp⟩, fun _ none => absurd none List.not_mem_nil⟩

theorem Python.line_of_moduleImport {line : Nat} {part : List Char} {i : Import}
    (found : moduleImport? line part = some i) : i.line = line := by
  unfold moduleImport? at found
  split at found
  · cases found
  · obtain rfl := Option.some.inj found
    rfl
  · obtain rfl := Option.some.inj found
    rfl

theorem Python.importForms_regular : ∀ form ∈ Python.importForms, form.Regular := by
  have fromWord : Opens (literal "from") :=
    opens_literal (c := 'f') rfl (by decide)
  have importWord : Opens (literal "import") :=
    opens_literal (c := 'i') rfl (by decide)
  simp only [Python.importForms, List.forall_mem_cons]
  refine ⟨⟨exists_statement fromWord, by simp⟩,
    ⟨exists_statement importWord, fun m line i member => ?_⟩,
    fun _ none => absurd none List.not_mem_nil⟩
  obtain ⟨part, -, found⟩ := List.mem_filterMap.mp member
  exact Python.line_of_moduleImport found

theorem importForms_regular (language : Language) :
    ∀ form ∈ importForms language, form.Regular := by
  unfold importForms
  split
  · exact Script.importForms_regular
  · exact Python.importForms_regular

end Source

end CodeAtlas
