import CodeAtlas.Source.Python
import CodeAtlas.Source.Script

/-!
# Declarations line by line

What a line declares depends on the line and on the number of lines before it, whatever the lines
before have declared. So the declarations that are read off some lines are those of the numbered
lines one by one, and each of them has a line that holds its header.
-/

namespace CodeAtlas.Source

variable {all lines : List (List Char)} {before : Nat} {d : Declaration}

/-! ### Scripts -/

namespace Script

/-- What a line declares by a header, with the number of lines before it. -/
def headed? (stripped : List (List Char)) (x : List Char × Nat) : Option Declaration :=
  (header? x.1).map fun h =>
    ⟨h.name, h.kind, x.2 + 1, bracedEnd stripped x.2, h.extended, h.implemented⟩

/-- The method of one of some classes that a line holds. -/
def classMethod? (classes : List Declaration) (stripped : List (List Char))
    (x : List Char × Nat) : Option Declaration :=
  if classes.any (isInside · (x.2 + 1)) then
    (method? x.1).bind fun m =>
      if keywords.contains (m.string 1) then none
      else some ⟨m.string 1, .function, x.2 + 1, bracedEnd stripped x.2, [], []⟩
  else none

theorem declarationsFrom_eq (stripped : List (List Char)) (before : Nat)
    (lines : List (List Char)) :
    declarationsFrom stripped before lines =
      (lines.zipIdx before).filterMap (headed? stripped) := by
  induction lines generalizing before with
  | nil => rfl
  | cons line rest ih =>
    rw [declarationsFrom, List.zipIdx_cons, List.filterMap_cons, ← ih, headed?]
    cases header? line <;> rfl

theorem methodsFrom_eq (classes : List Declaration) (stripped : List (List Char)) (before : Nat)
    (lines : List (List Char)) :
    methodsFrom classes stripped before lines =
      (lines.zipIdx before).filterMap (classMethod? classes stripped) := by
  induction lines generalizing before with
  | nil => rfl
  | cons line rest ih =>
    rw [methodsFrom, List.zipIdx_cons, List.filterMap_cons, ← ih, classMethod?]
    split
    · cases method? line with
      | none => rfl
      | some m =>
        simp only [Option.bind_some]
        cases keywords.contains (m.string 1) <;> rfl
    · rfl

/-- A declaration has a line with its header. -/
theorem exists_header (member : d ∈ declarationsFrom all before lines) :
    ∃ line n h, (line, n) ∈ lines.zipIdx before ∧ header? line = some h ∧
      d = ⟨h.name, h.kind, n + 1, bracedEnd all n, h.extended, h.implemented⟩ := by
  rw [declarationsFrom_eq] at member
  obtain ⟨⟨line, n⟩, numbered, declares⟩ := List.mem_filterMap.mp member
  obtain ⟨h, header, same⟩ := Option.map_eq_some_iff.mp declares
  exact ⟨line, n, h, numbered, header, same.symm⟩

/-- A method has a line with its header, inside a class, and its name is no keyword. -/
theorem exists_method {classes : List Declaration}
    (member : d ∈ methodsFrom classes all before lines) :
    ∃ line n m, (line, n) ∈ lines.zipIdx before ∧ classes.any (isInside · (n + 1)) = true ∧
      method? line = some m ∧ m.string 1 ∉ keywords ∧
        d = ⟨m.string 1, .function, n + 1, bracedEnd all n, [], []⟩ := by
  rw [methodsFrom_eq] at member
  obtain ⟨⟨line, n⟩, numbered, declares⟩ := List.mem_filterMap.mp member
  obtain ⟨inClass, declares⟩ := Option.ite_none_right_eq_some.mp declares
  obtain ⟨m, isMethod, declares⟩ := Option.bind_eq_some_iff.mp declares
  obtain ⟨noKeyword, same⟩ := Option.ite_none_left_eq_some.mp declares
  exact ⟨line, n, m, numbered, inClass, isMethod, by simpa using noKeyword,
    (Option.some.inj same).symm⟩

end Script

/-! ### Python -/

namespace Python

/-- What a line declares, with the number of lines before it. -/
def headed? (all : List (List Char)) (x : List Char × Nat) : Option Declaration :=
  (header? x.1).map fun h =>
    ⟨h.name, h.kind, x.2 + 1,
      if h.kind = .binding then x.2 + 1 else indentedEnd all x.2 h.indent, h.bases, []⟩

theorem declarationsFrom_eq (all : List (List Char)) (before : Nat) (lines : List (List Char)) :
    declarationsFrom all before lines = (lines.zipIdx before).filterMap (headed? all) := by
  induction lines generalizing before with
  | nil => rfl
  | cons line rest ih =>
    rw [declarationsFrom, List.zipIdx_cons, List.filterMap_cons, ← ih, headed?]
    cases header? line <;> rfl

/-- A declaration has a line with its header. -/
theorem exists_header (member : d ∈ declarationsFrom all before lines) :
    ∃ line n h, (line, n) ∈ lines.zipIdx before ∧ header? line = some h ∧
      d = ⟨h.name, h.kind, n + 1,
        if h.kind = .binding then n + 1 else indentedEnd all n h.indent, h.bases, []⟩ := by
  rw [declarationsFrom_eq] at member
  obtain ⟨⟨line, n⟩, numbered, declares⟩ := List.mem_filterMap.mp member
  obtain ⟨h, header, same⟩ := Option.map_eq_some_iff.mp declares
  exact ⟨line, n, h, numbered, header, same.symm⟩

end Python

end CodeAtlas.Source
