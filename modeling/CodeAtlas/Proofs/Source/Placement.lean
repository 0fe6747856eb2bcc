import CodeAtlas.Proofs.Source.Span
import CodeAtlas.Proofs.Source.Statement

/-!
# Where an outline lies in its text

What is read off a text points into the text, whatever the text is. Declarations, imports and calls
are in order of their lines, which are lines of the text; declarations end where the text does at
the latest; imports carry the lines of their statements; and no call is a keyword or repeats the
name of a declaration that starts on its line.
-/

namespace CodeAtlas

/-- A call stands on a line of a text whose code holds the called name. The name is no keyword, and
nothing of that name is declared from this line on. -/
structure Call.Stands (language : Language) (lines : List (List Char))
    (declared : List Declaration) (c : Call) : Prop where
  positive : 1 ≤ c.line
  line_le : c.line ≤ lines.length
  named : ∃ line, lines[c.line - 1]? = some line ∧
    c.callee.toList <:+: Source.codeOf language line
  notKeyword : c.callee ∉ Source.keywords language
  undeclared : ∀ d ∈ declared, d.lineStart = c.line → d.name ≠ c.callee

/-- An outline lies in a text of a language. -/
structure Outline.LiesIn (language : Language) (content : List Char) (o : Outline) : Prop where
  declarations_sorted : o.declarations.Pairwise fun d e => d.lineStart ≤ e.lineStart
  declarations_distinct : (o.declarations.map Declaration.key).Nodup
  declarations_stand : ∀ d ∈ o.declarations, d.Stands (Text.lines content)
  /-- What the second pass over a script finds is reported, and starts inside a reported class. -/
  methods_inside : language.usesBraces = true →
    ∀ d ∈ Source.Script.methods (Text.lines content), d ∈ o.declarations ∧ ∃ c ∈ o.declarations,
      c.kind = .classType ∧ c.lineStart < d.lineStart ∧ d.lineStart < c.lineEnd
  imports_sorted : o.imports.Pairwise fun i j => i.line ≤ j.line
  imports_inside : ∀ i ∈ o.imports, 1 ≤ i.line ∧ i.line ≤ (Text.lines content).length
  imports_stated : ∀ i, i ∈ o.imports ↔ i.Stated (Source.importForms language) content
  calls_sorted : o.calls.Pairwise fun c d => c.line ≤ d.line
  calls_stand : ∀ c ∈ o.calls, c.Stands language (Text.lines content) o.declarations

namespace Source

/-! ### Calls -/

section

variable {language : Language} {declared : List Declaration} {lines : List (List Char)} {c : Call}

/-- A call of a line carries the line's number, and it is neither a keyword nor declared there. -/
theorem mem_callsOfLine {line : Nat} {raw : List Char}
    (member : c ∈ callsOfLine language declared line raw) :
    c.line = line ∧ c.callee.toList <:+: codeOf language raw ∧ c.callee ∉ keywords language ∧
      ∀ d ∈ declared, d.lineStart = line → d.name ≠ c.callee := by
  unfold callsOfLine at member
  split at member
  · cases member
  · obtain ⟨m, found, kept⟩ := List.mem_filterMap.mp member
    obtain ⟨start, of⟩ := Pattern.matchesIn_of found
    simp only [Option.ite_none_left_eq_some, Option.some.injEq] at kept
    obtain ⟨noKeyword, -, undeclared, -, rfl⟩ := kept
    refine ⟨rfl, of.string_infix 1, by simpa using noKeyword, fun d known here same => ?_⟩
    exact undeclared (List.any_eq_true.mpr ⟨d, known, by simp [here, same]⟩)

theorem callsFrom_eq (language : Language) (declared : List Declaration) (before : Nat)
    (lines : List (List Char)) :
    callsFrom language declared before lines =
      (lines.zipIdx before).flatMap fun x => callsOfLine language declared (x.2 + 1) x.1 := by
  induction lines generalizing before with
  | nil => rfl
  | cons line rest ih => rw [callsFrom, List.zipIdx_cons, List.flatMap_cons, ih]

theorem callsFrom_sorted (language : Language) (declared : List Declaration)
    (lines : List (List Char)) :
    (callsFrom language declared 0 lines).Pairwise fun c d => c.line ≤ d.line := by
  rw [callsFrom_eq]
  exact sorted_zipIdx (fun x c member => (mem_callsOfLine member).1) lines 0

theorem callsFrom_stand (member : c ∈ callsFrom language declared 0 lines) :
    c.Stands language lines declared := by
  rw [callsFrom_eq, List.mem_flatMap] at member
  obtain ⟨⟨raw, n⟩, numbered, onLine⟩ := member
  obtain ⟨line, named, noKeyword, undeclared⟩ := mem_callsOfLine onLine
  have here : lines[n]? = some raw := List.mem_zipIdx_iff_getElem?.mp numbered
  obtain ⟨inside, -⟩ := List.getElem?_eq_some_iff.mp here
  exact {
    positive := by omega
    line_le := by omega
    named := ⟨raw, by rw [line, Nat.add_sub_cancel, here], named⟩
    notKeyword := noKeyword
    undeclared := fun d known same => undeclared d known (same.trans line) }

end

/-! ### Whole outlines -/

section

variable (language : Language) (content : List Char)

theorem read_declarations_sorted :
    (read language content).declarations.Pairwise fun d e => d.lineStart ≤ e.lineStart := by
  cases braces : language.usesBraces with
  | true => simpa [read, braces] using Script.declarations_sorted (Text.lines content)
  | false => simpa [read, braces] using Python.declarations_sorted (Text.lines content)

theorem read_declarations_stand :
    ∀ d ∈ (read language content).declarations, d.Stands (Text.lines content) := by
  intro d member
  cases braces : language.usesBraces with
  | true => exact Script.declarations_stand (by simpa [read, braces] using member)
  | false => exact Python.declarations_stand (by simpa [read, braces] using member)

/-- The methods of a script are reported, and each starts inside a class that is reported. -/
theorem read_methods_inside (braces : language.usesBraces = true) :
    ∀ d ∈ Script.methods (Text.lines content), d ∈ (read language content).declarations ∧
      ∃ c ∈ (read language content).declarations,
        c.kind = .classType ∧ c.lineStart < d.lineStart ∧ d.lineStart < c.lineEnd := by
  intro d member
  have reported : (read language content).declarations =
      Script.declarations (Text.lines content) := by
    simp [read, braces]
  obtain ⟨-, c, first, inside⟩ := Script.methods_stand member
  rw [reported]
  exact ⟨Script.mem_declarations_iff.mpr (.inr member), c,
    Script.mem_declarations_iff.mpr (.inl first), inside⟩

theorem read_imports_sorted :
    (read language content).imports.Pairwise fun i j => i.line ≤ j.line := by
  rw [read_imports]
  exact importsOf_sorted _ _

theorem read_imports_stated (i : Import) :
    i ∈ (read language content).imports ↔ i.Stated (importForms language) content := by
  rw [read_imports]
  exact mem_importsOf_iff (importForms_regular language)

end

/-- The outline of any text under the path of a source lies in the text; under any other path it is
empty. -/
theorem parse_liesIn (content path : String) :
    match Language.ofPath? path with
    | some language => (parse content path).LiesIn language content.toList
    | none => parse content path = Outline.empty := by
  cases known : Language.ofPath? path with
  | none => simp [parse, known]
  | some language =>
    have outline : parse content path = read language content.toList := by
      simp [parse, known]
    have distinct := (parse_plain content path).keys
    show (parse content path).LiesIn language content.toList
    rw [outline] at distinct ⊢
    exact {
      declarations_sorted := read_declarations_sorted language _
      declarations_distinct := distinct
      declarations_stand := read_declarations_stand language _
      methods_inside := read_methods_inside language _
      imports_sorted := read_imports_sorted language _
      imports_inside := fun i member => ((read_imports_stated language _ i).mp member).line_le
      imports_stated := read_imports_stated language _
      calls_sorted := callsFrom_sorted language _ _
      calls_stand := fun c member => callsFrom_stand member }

end Source

end CodeAtlas
