import CodeAtlas.Proofs.Pattern.Matches
import CodeAtlas.Proofs.Source.Plain
import CodeAtlas.Proofs.Text.Order

/-!
# The lines of declarations

A declaration stands on a line of the text that holds its name, and it ends on that line or a later
one, whether or not its braces are ever closed. Both languages report their declarations in order of
those lines. The methods of a script come from a second pass, which looks strictly inside the
classes that the first one reports.
-/

namespace CodeAtlas

/-- A declaration spans lines of a text, the first of which holds its name. -/
structure Declaration.Stands (lines : List (List Char)) (d : Declaration) : Prop where
  positive : 1 ≤ d.lineStart
  start_le : d.lineStart ≤ d.lineEnd
  end_le : d.lineEnd ≤ lines.length
  named : ∃ line, lines[d.lineStart - 1]? = some line ∧ d.name.toList <:+: line

namespace Source

/-! ### Line by line -/

/-- Things that are read off one line after the other are in order of the lines that they carry. -/
theorem sorted_zipIdx {α : Type} {lineOf : α → Nat} {read : List Char × Nat → List α}
    (own : ∀ x, ∀ a ∈ read x, lineOf a = x.2 + 1) (lines : List (List Char)) (before : Nat) :
    ((lines.zipIdx before).flatMap read).Pairwise fun a b => lineOf a ≤ lineOf b := by
  have numbers : (lines.zipIdx before).Pairwise fun x y => x.2 < y.2 := by
    rw [← List.pairwise_map, List.zipIdx_map_snd]
    exact List.pairwise_lt_range'
  rw [List.pairwise_flatMap]
  constructor
  · intro x _
    refine List.pairwise_of_forall_mem_list fun a inA b inB => ?_
    rw [own x a inA, own x b inB]
  · refine numbers.imp fun {x y} less a inA b inB => ?_
    rw [own x a inA, own y b inB]
    exact Nat.succ_le_succ less.le

/-! ### The ends of blocks -/

section Ends

variable {lines : List (List Char)} {n : Nat}

theorem le_braceEnd (s : Nesting) (last : Nat) (lines : List (List Char)) :
    last ≤ braceEnd s last lines := by
  fun_induction braceEnd s last lines with
  | case1 => exact Nat.le_refl _
  | case2 => exact Nat.le_succ _
  | case3 => exact Nat.le_succ _
  | case4 s last line rest s' _ _ ih => exact (Nat.le_succ last).trans ih

theorem braceEnd_le (s : Nesting) (last : Nat) (lines : List (List Char)) :
    braceEnd s last lines ≤ last + lines.length := by
  fun_induction braceEnd s last lines with
  | case1 => exact Nat.le_refl _
  | case2 | case3 =>
    rw [List.length_cons]
    omega
  | case4 s last line rest s' _ _ ih =>
    rw [List.length_cons]
    omega

theorem lt_bracedEnd (inside : n < lines.length) : n < bracedEnd lines n := by
  rw [bracedEnd, List.drop_eq_getElem_cons inside, braceEnd]
  split
  · exact Nat.lt_succ_self n
  · split
    · exact Nat.lt_succ_self n
    · exact le_braceEnd _ _ _

theorem bracedEnd_le (inside : n < lines.length) : bracedEnd lines n ≤ lines.length := by
  have bound := braceEnd_le Nesting.start n (lines.drop n)
  rwa [List.length_drop, Nat.add_sub_cancel' inside.le] at bound

theorem indentEnd_le {last line : Nat} (indent : Nat) (reached : last ≤ line)
    (lines : List (List Char)) : indentEnd indent last line lines ≤ line + lines.length := by
  induction lines generalizing last line with
  | nil => exact reached
  | cons next rest ih =>
    have shift : line + (next :: rest).length = line + 1 + rest.length := by
      rw [List.length_cons]
      omega
    rw [shift, indentEnd]
    split
    · exact ih (Nat.le_succ_of_le reached)
    · split
      · exact ih (Nat.le_succ_of_le reached)
      · split
        · omega
        · exact ih (Nat.le_refl _)

theorem indentedEnd_le (indent : Nat) (inside : n < lines.length) :
    indentedEnd lines n indent ≤ lines.length := by
  have bound := indentEnd_le indent (Nat.le_refl (n + 1)) (lines.drop (n + 1))
  rwa [List.length_drop, Nat.add_sub_cancel' inside] at bound

/-- A declaration stands on its line if it ends after what precedes it and within the text. -/
theorem stands_of_line {line : List Char} {d : Declaration} (here : lines[n]? = some line)
    (start : d.lineStart = n + 1) (after : n < d.lineEnd) (within : d.lineEnd ≤ lines.length)
    (named : d.name.toList <:+: line) : d.Stands lines where
  positive := by omega
  start_le := by omega
  end_le := within
  named := ⟨line, by rw [start, Nat.add_sub_cancel, here], named⟩

end Ends

/-- A group of a match holds a piece of the line. -/
theorem string_infix {p : Pattern} {line : List Char} {m : Pattern.Match} (number : Nat)
    (found : p.search line = some m) : (m.string number).toList <:+: line := by
  obtain ⟨start, of⟩ := Pattern.search_of found
  exact of.string_infix number

/-! ### Scripts -/

namespace Script

theorem header_named {line : List Char} {h : Header} (found : header? line = some h) :
    h.name.toList <:+: line := by
  obtain ⟨-, p, m, -, fits, same⟩ := header_search found
  rw [same]
  exact string_infix 1 fits

theorem method_named {line : List Char} {m : Pattern.Match} (found : method? line = some m) :
    (m.string 1).toList <:+: line := by
  obtain ⟨p, -, fits⟩ := method_search found
  exact string_infix 1 fits

/-- What the first pass over the lines finds: the declarations with a header of their own. -/
def headed (lines : List (List Char)) : List Declaration :=
  Declaration.distinct [] (declarationsFrom (lines.map withoutStrings) 0 lines)

/-- What the second pass finds: the methods of the classes that the first one has found. -/
def methods (lines : List (List Char)) : List Declaration :=
  Declaration.distinct ((headed lines).map Declaration.key)
    (methodsFrom ((headed lines).filter (·.kind == .classType)) (lines.map withoutStrings) 0 lines)

section

variable {lines : List (List Char)} {d : Declaration}

theorem mem_declarations_iff : d ∈ declarations lines ↔ d ∈ headed lines ∨ d ∈ methods lines := by
  rw [← List.mem_append]
  exact List.mem_mergeSort

theorem declarations_sorted (lines : List (List Char)) :
    (declarations lines).Pairwise fun a b => a.lineStart ≤ b.lineStart :=
  Text.mergeSort_keys Declaration.lineStart (headed lines ++ methods lines)

/-- A declaration on a line of a script stands there and ends where its braces say. -/
theorem stands_of_braced {line : List Char} {n : Nat} (here : lines[n]? = some line)
    (start : d.lineStart = n + 1) (last : d.lineEnd = bracedEnd (lines.map withoutStrings) n)
    (named : d.name.toList <:+: line) : d.Stands lines := by
  obtain ⟨inside, -⟩ := List.getElem?_eq_some_iff.mp here
  have inside' : n < (lines.map withoutStrings).length := by
    rwa [List.length_map]
  refine stands_of_line here start ?_ ?_ named
  · rw [last]
    exact lt_bracedEnd inside'
  · rw [last, ← List.length_map withoutStrings]
    exact bracedEnd_le inside'

theorem headed_stands (member : d ∈ headed lines) : d.Stands lines := by
  obtain ⟨line, n, h, numbered, header, rfl⟩ :=
    exists_header ((Declaration.distinct_sublist _ _).subset member)
  exact stands_of_braced (List.mem_zipIdx_iff_getElem?.mp numbered) rfl rfl (header_named header)

/-- A method stands strictly inside a class that the first pass has found. -/
theorem methods_stand (member : d ∈ methods lines) :
    d.Stands lines ∧ ∃ c ∈ headed lines,
      c.kind = .classType ∧ c.lineStart < d.lineStart ∧ d.lineStart < c.lineEnd := by
  obtain ⟨line, n, m, numbered, inClass, isMethod, -, rfl⟩ :=
    exists_method ((Declaration.distinct_sublist _ _).subset member)
  obtain ⟨c, isClass, inside⟩ := List.any_eq_true.mp inClass
  obtain ⟨reported, kind⟩ := List.mem_filter.mp isClass
  refine ⟨stands_of_braced (List.mem_zipIdx_iff_getElem?.mp numbered) rfl rfl
    (method_named isMethod), c, reported, by simpa using kind, ?_⟩
  simpa [isInside] using inside

theorem declarations_stand (member : d ∈ declarations lines) : d.Stands lines :=
  (mem_declarations_iff.mp member).elim headed_stands fun second => (methods_stand second).1

end

end Script

/-! ### Python -/

namespace Python

theorem header_named {line : List Char} {h : Header} (found : header? line = some h) :
    h.name.toList <:+: line := by
  obtain ⟨-, p, m, number, -, fits, same⟩ := header_search found
  rw [same]
  exact string_infix number fits

theorem declarations_sorted (lines : List (List Char)) :
    (declarations lines).Pairwise fun a b => a.lineStart ≤ b.lineStart := by
  have all : (declarationsFrom lines 0 lines).Pairwise fun a b => a.lineStart ≤ b.lineStart := by
    rw [declarationsFrom_eq, List.filterMap_eq_flatMap_toList]
    refine sorted_zipIdx (fun x d member => ?_) lines 0
    obtain ⟨h, -, rfl⟩ := Option.map_eq_some_iff.mp (Option.mem_toList.mp member)
    rfl
  exact all.sublist (Declaration.distinct_sublist _ _)

theorem declarations_stand {lines : List (List Char)} {d : Declaration}
    (member : d ∈ declarations lines) : d.Stands lines := by
  obtain ⟨line, n, h, numbered, header, rfl⟩ :=
    exists_header ((Declaration.distinct_sublist _ _).subset member)
  have here := List.mem_zipIdx_iff_getElem?.mp numbered
  obtain ⟨inside, -⟩ := List.getElem?_eq_some_iff.mp here
  refine stands_of_line here rfl ?_ ?_ (header_named header)
  · show n < if h.kind = .binding then n + 1 else indentedEnd lines n h.indent
    split
    · exact Nat.lt_succ_self n
    · exact le_indentEnd _ _ _ _ (Nat.le_refl _)
  · show (if h.kind = .binding then n + 1 else indentedEnd lines n h.indent) ≤ lines.length
    split
    · exact inside
    · exact indentedEnd_le h.indent inside

end Python

end Source

end CodeAtlas
