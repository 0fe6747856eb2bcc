import CodeAtlas.Proofs.Source.Heading
import CodeAtlas.Proofs.Text.Path

/-!
# Import clauses

What stands between `import` and `from`: a default name, and all of the module under one name or a
list of names in braces, each of which may be bound under another name. A clause is taken apart at its
braces and commas, and exactly the names that it takes from the module are found, in their order,
whatever blanks stand around the commas and inside the braces.
-/

namespace CodeAtlas.Source.Script

/-- A character that may stand in an identifier. -/
def identifies (c : Char) : Bool :=
  Text.isAlphanumeric c || c == '_' || c == '$'

/-- An identifier other than the word in front of types. -/
structure BindingName where
  chars : List Char
  isName : Source.isName chars = true
  notType : chars ≠ "type".toList

/-- A name in braces, as it is in the module. -/
inductive Specifier where
  | plain (name : BindingName)
  /-- A name that is marked as that of a type. -/
  | typed (name : BindingName)
  /-- A name that is bound under another one. -/
  | renamed (name other : BindingName)

/-- What a clause binds beside a default. -/
inductive Bindings where
  /-- All of the module under one name. -/
  | whole (name : BindingName)
  | listed (specifiers : List Specifier)

/-- An import clause. -/
structure ImportClause where
  typeOnly : Bool
  default? : Option BindingName
  others? : Option Bindings

namespace Specifier

/-- The name in the module. -/
def original : Specifier → BindingName
  | plain name => name
  | typed name => name
  | renamed name _ => name

/-- A specifier as it is written. -/
def text : Specifier → List Char
  | plain name => name.chars
  | typed name => "type ".toList ++ name.chars
  | renamed name other => name.chars ++ " as ".toList ++ other.chars

end Specifier

/-- The names that bindings record, those of a list as they are called at their origin. -/
def Bindings.names : Bindings → List BindingName
  | whole name => [name]
  | listed specifiers => specifiers.map Specifier.original

/-- The names that a clause takes from the module. -/
def ImportClause.names (c : ImportClause) : List String :=
  (c.default?.toList ++ (c.others?.map Bindings.names).getD []).map fun n => String.ofList n.chars

/-- A text lists some specifiers with commas between them; one more comma may follow the last. -/
inductive Lists : List Specifier → List Char → Prop where
  | none {b : List Char} : Blank b → Lists [] b
  | last {s : Specifier} {b₁ b₂ : List Char} : Blank b₁ → Blank b₂ → Lists [s] (b₁ ++ s.text ++ b₂)
  | more {s : Specifier} {ss : List Specifier} {text b₁ b₂ : List Char} : Blank b₁ → Blank b₂ →
      Lists ss text → Lists (s :: ss) (b₁ ++ s.text ++ b₂ ++ ',' :: text)

/-- How bindings may be written. -/
inductive Bindings.Writes : Bindings → List Char → Prop where
  | whole {n : BindingName} : Writes (.whole n) ("* as ".toList ++ n.chars)
  | listed {ss : List Specifier} {inner : List Char} : Lists ss inner →
      Writes (.listed ss) ('\x7b' :: inner ++ ['\x7d'])

/-- A text binds a default name, or others, or both with a comma between them. -/
inductive Binds : Option BindingName → Option Bindings → List Char → Prop where
  | default {n : BindingName} : Binds (some n) none n.chars
  | others {b : Bindings} {text : List Char} : b.Writes text → Binds none (some b) text
  | both {n : BindingName} {b : Bindings} {text b₁ b₂ : List Char} : Blank b₁ → Blank b₂ →
      b.Writes text → Binds (some n) (some b) (n.chars ++ b₁ ++ ',' :: (b₂ ++ text))

/-- A text writes an import clause. -/
inductive ImportClause.Writes : ImportClause → List Char → Prop where
  | values {d : Option BindingName} {o : Option Bindings} {text : List Char} : Binds d o text →
      Writes ⟨false, d, o⟩ text
  | types {d : Option BindingName} {o : Option Bindings} {text : List Char} : Binds d o text →
      Writes ⟨true, d, o⟩ ("type ".toList ++ text)

/-! ### Names -/

theorem identifies_of_isBlank {c : Char} (blank : Text.isBlank c = true) : identifies c = false := by
  have listed : ∀ n ∈ Text.blankPoints, identifies (Char.ofNat n) = false := by decide +kernel
  exact Text.forall_blank (P := fun c => identifies c = false) listed blank

namespace BindingName

variable (n : BindingName)

theorem characters : ∀ c ∈ n.chars, identifies c = true := by
  obtain ⟨cs, isName, -⟩ := n
  cases cs with
  | nil => simp
  | cons c rest =>
    simp only [Source.isName, Bool.and_eq_true, List.all_eq_true] at isName
    obtain ⟨first, others⟩ := isName
    intro d member
    rcases List.mem_cons.mp member with rfl | later
    · simp only [Bool.or_eq_true, beq_iff_eq] at first
      rcases first with (letter | rfl) | rfl
      · simp [identifies, Text.isAlphanumeric, letter]
      · rfl
      · rfl
    · exact others d later

theorem ne_nil : n.chars ≠ [] := by
  intro empty
  have isName := n.isName
  rw [empty] at isName
  cases isName

theorem notBlank : ∀ c ∈ n.chars, Text.isBlank c = false := by
  intro c member
  by_contra blank
  have never := identifies_of_isBlank (by simpa using blank)
  simp [n.characters c member] at never

/-- A character that stands in no identifier does not stand in this one. -/
theorem notMem {c : Char} (no : identifies c = false) : c ∉ n.chars := by
  intro member
  simp [n.characters c member] at no

theorem comma_notMem : ',' ∉ n.chars :=
  n.notMem (by decide +kernel)

theorem brace_notMem : '\x7b' ∉ n.chars :=
  n.notMem (by decide +kernel)

theorem tight : Text.Tight n.chars :=
  .of_forall n.ne_nil n.notBlank

/-- No mark of types is cut off from a name, as it is not that mark. -/
theorem withoutType_append {rest : List Char}
    (ends : ∀ c, rest.head? = some c → identifies c = false) :
    withoutType (n.chars ++ rest) = n.chars ++ rest := by
  unfold withoutType
  cases found : Text.afterStart? "type ".toList (n.chars ++ rest) with
  | none => rfl
  | some after =>
    have split := Text.afterStart?_eq_some_iff.mp found
    have stops : ∀ c, rest.head? = some c → ¬ identifies c = true := by
      intro c first
      simp [ends c first]
    have left : (n.chars ++ rest).takeWhile identifies = n.chars := by
      rw [List.takeWhile_append_of_pos n.characters]
      cases rest with
      | nil => simp
      | cons c rest => rw [List.takeWhile_cons_of_neg (stops c rfl), List.append_nil]
    have right : ("type ".toList ++ after).takeWhile identifies = "type".toList := by
      have word : identifies 't' = true ∧ identifies 'y' = true ∧ identifies 'p' = true ∧
          identifies 'e' = true ∧ identifies ' ' = false := by decide +kernel
      simp [word]
    exact absurd (left.symm.trans ((congrArg _ split).trans right)) n.notType

theorem withoutType_chars : withoutType n.chars = n.chars := by
  have kept : withoutType (n.chars ++ []) = n.chars ++ [] := n.withoutType_append (by simp)
  rwa [List.append_nil] at kept

/-- A name is a part outside the braces that binds itself. -/
theorem outerName {b b' : List Char} (blank : Blank b) (blank' : Blank b') :
    outerName? (b ++ n.chars ++ b') = some (String.ofList n.chars) := by
  have noStar : Text.afterStart? "* as ".toList n.chars = none := by
    rw [Option.eq_none_iff_forall_ne_some]
    intro after found
    have star : '*' ∈ n.chars := by simp [Text.afterStart?_eq_some_iff.mp found]
    exact n.notMem (by decide) star
  rw [outerName?, n.tight.trim_around blank blank', noStar]
  exact if_pos n.isName

/-- A name is found where it begins a specifier. -/
theorem innerName {part rest : List Char} (trimmed : withoutType (Text.trim part) = n.chars ++ rest)
    (stops : ∀ c, rest.head? = some c → Text.isBlank c = true) :
    innerName? part = some (String.ofList n.chars) := by
  have word : (Text.words (n.chars ++ rest)).headD [] = n.chars := by
    rw [List.headD_eq_head?_getD, Text.head?_words n.notBlank n.ne_nil stops, Option.getD_some]
  rw [innerName?, trimmed, word, Text.splitAt_eq_singleton (n.notMem (by decide))]
  simp [n.isName]

end BindingName

/-- Blanks alone bind nothing. -/
theorem outerName_blank {b : List Char} (blank : Blank b) : outerName? b = none := by
  rw [outerName?, Text.trim_of_blank blank]
  rfl

theorem innerName_blank {b : List Char} (blank : Blank b) : innerName? b = none := by
  rw [innerName?, Text.trim_of_blank blank]
  rfl

theorem tight_whole (n : BindingName) : Text.Tight ("* as ".toList ++ n.chars) :=
  (Text.Tight.singleton (c := '*') (by decide)).append " as ".toList n.tight

/-- All of a module is bound by one name. -/
theorem outerName_whole (n : BindingName) {b : List Char} (blank : Blank b) :
    outerName? (b ++ ("* as ".toList ++ n.chars)) = some (String.ofList n.chars) := by
  have trimmed : Text.trim (b ++ ("* as ".toList ++ n.chars)) = "* as ".toList ++ n.chars := by
    have cut := (tight_whole n).trim_around blank (List.forall_mem_nil _)
    rwa [List.append_nil] at cut
  rw [outerName?, trimmed, Text.afterStart?_eq_some_iff.mpr rfl]
  simp only [n.tight.trim, n.isName, if_pos]

/-! ### Specifiers -/

/-- A mark of types is cut off. -/
theorem withoutType_type (cs : List Char) : withoutType ("type ".toList ++ cs) = cs := by
  rw [withoutType, Text.afterStart?_eq_some_iff.mpr rfl, Option.getD_some]

namespace Specifier

variable (s : Specifier)

theorem tight : Text.Tight s.text := by
  cases s with
  | plain name => exact name.tight
  | typed name => exact (Text.Tight.singleton (c := 't') (by decide)).append "ype ".toList name.tight
  | renamed name other => exact name.tight.append " as ".toList other.tight

/-- Without a mark of types a specifier begins with the original name. -/
theorem withoutType_text : ∃ rest, withoutType s.text = s.original.chars ++ rest ∧
    ∀ c, rest.head? = some c → Text.isBlank c = true := by
  cases s with
  | plain name =>
    refine ⟨[], ?_, by simp⟩
    rw [List.append_nil]
    exact name.withoutType_chars
  | typed name => exact ⟨[], by rw [text, withoutType_type, List.append_nil]; rfl, by simp⟩
  | renamed name other =>
    refine ⟨" as ".toList ++ other.chars, ?_, ?_⟩
    · rw [text, List.append_assoc]
      refine name.withoutType_append fun c first => ?_
      obtain rfl : ' ' = c := by simpa using first
      decide +kernel
    · intro c first
      obtain rfl : ' ' = c := by simpa using first
      decide

/-- A specifier is read as the original name, whatever it is bound under. -/
theorem innerName {b b' : List Char} (blank : Blank b) (blank' : Blank b') :
    innerName? (b ++ s.text ++ b') = some (String.ofList s.original.chars) := by
  obtain ⟨rest, bare, stops⟩ := s.withoutType_text
  exact s.original.innerName (by rw [s.tight.trim_around blank blank', bare]) stops

theorem comma_notMem_text : ',' ∉ s.text := by
  cases s with
  | plain name => exact name.comma_notMem
  | typed name => simp [text, name.comma_notMem]
  | renamed name other => simp [text, name.comma_notMem, other.comma_notMem]

end Specifier

/-! ### Parts between commas and braces -/

theorem notMem_blank {c : Char} {b : List Char} (visible : Text.isBlank c = false) (blank : Blank b) :
    c ∉ b := by
  intro member
  simp [blank c member] at visible

section

variable {b : List Char} (blank : Blank b)

include blank

theorem comma_notMem_blank : ',' ∉ b :=
  notMem_blank (by decide) blank

theorem brace_notMem_blank : '\x7b' ∉ b :=
  notMem_blank (by decide) blank

end

/-- The names of a list of specifiers are read in its order. -/
theorem Lists.names {ss : List Specifier} {text : List Char} (lists : Lists ss text) :
    (Text.splitAt ',' text).filterMap innerName? =
      ss.map fun s => String.ofList s.original.chars := by
  have whole (s : Specifier) {b₁ b₂ : List Char} (blank₁ : Blank b₁) (blank₂ : Blank b₂) :
      Text.splitAt ',' (b₁ ++ s.text ++ b₂) = [b₁ ++ s.text ++ b₂] := by
    apply Text.splitAt_eq_singleton
    simp [comma_notMem_blank blank₁, comma_notMem_blank blank₂, s.comma_notMem_text]
  induction lists with
  | none blank => simp [Text.splitAt_eq_singleton (comma_notMem_blank blank), innerName_blank blank]
  | @last s b₁ b₂ blank₁ blank₂ =>
    rw [whole s blank₁ blank₂, List.filterMap_cons_some (s.innerName blank₁ blank₂)]
    rfl
  | @more s ss text b₁ b₂ blank₁ blank₂ _ ih =>
    rw [Text.splitAt_append, whole s blank₁ blank₂, List.singleton_append,
      List.filterMap_cons_some (s.innerName blank₁ blank₂), ih, List.map_cons]

section

variable {clause body before inner : List Char}

/-- A clause without braces is read at its commas. -/
theorem importNames_of_notMem (bare : withoutType (Text.trim clause) = body) (absent : '\x7b' ∉ body) :
    importNames clause = (Text.splitAt ',' body).filterMap outerName? := by
  have parts : clauseParts body = (body, none) := by
    rw [clauseParts, List.idxOf?_eq_none_iff.mpr absent]
  rw [importNames, bare, parts]
  exact List.append_nil _

/-- A clause that ends with braces is read before and inside them. -/
theorem importNames_of_braces
    (bare : withoutType (Text.trim clause) = before ++ '\x7b' :: (inner ++ ['\x7d']))
    (absent : '\x7b' ∉ before) :
    importNames clause = (Text.splitAt ',' before).filterMap outerName? ++
      (Text.splitAt ',' inner).filterMap innerName? := by
  have opening : (before ++ '\x7b' :: (inner ++ ['\x7d'])).idxOf? '\x7b' = some before.length := by
    refine List.idxOf?_eq_some_iff.mpr ⟨by simp, by simp, fun j earlier brace => absent ?_⟩
    rw [List.getElem_append_left earlier] at brace
    exact brace ▸ List.getElem_mem earlier
  -- the closing brace is looked for from the end
  have closing : (before ++ '\x7b' :: (inner ++ ['\x7d'])).reverse.idxOf? '\x7d' = some 0 := by
    simp [List.idxOf?_cons]
  have parts : clauseParts (before ++ '\x7b' :: (inner ++ ['\x7d'])) = (before, some inner) := by
    have last : (before ++ '\x7b' :: (inner ++ ['\x7d'])).length - 1 - 0 =
        before.length + (inner.length + 1) := by
      simp only [List.length_append, List.length_cons, List.length_nil]
      omega
    have beyond : (before ++ '\x7b' :: (inner ++ ['\x7d'])).drop
        (before.length + (inner.length + 1) + 1) = [] := by
      apply List.drop_eq_nil_of_le
      simp only [List.length_append, List.length_cons, List.length_nil]
      omega
    have between : ((before ++ '\x7b' :: (inner ++ ['\x7d'])).take
        (before.length + (inner.length + 1))).drop (before.length + 1) = inner := by
      simp [List.take_length_add_append, List.drop_length_add_append]
    rw [clauseParts, opening, closing]
    simp only [last, List.take_left, beyond, between, List.append_nil]
    exact if_pos (by omega)
  rw [importNames, bare, parts]

end

/-! ### Clauses -/

/-- What binds other names than a default begins with a star or a brace. -/
theorem Bindings.Writes.head {o : Bindings} {text : List Char} (writes : o.Writes text) :
    ∀ c, text.head? = some c → c = '*' ∨ c = '\x7b' := by
  intro c first
  cases writes with
  | whole => exact .inl (by simpa [eq_comm] using first)
  | listed => exact .inr (by simpa [eq_comm] using first)

theorem Bindings.Writes.tight {o : Bindings} {text : List Char} (writes : o.Writes text) :
    Text.Tight text := by
  cases writes with
  | whole => exact tight_whole _
  | @listed ss inner _ =>
    have opening : Text.Tight ['\x7b'] := .singleton (by decide)
    have closing : Text.Tight ['\x7d'] := .singleton (by decide)
    exact opening.append inner closing

/-- After pieces of the outer part the names beside a default are read. -/
theorem Bindings.Writes.names {o : Bindings} {clause text b : List Char} (before : List Char)
    (pieces : List (List Char)) (writes : o.Writes text) (blank : Blank b)
    (bare : withoutType (Text.trim clause) = before ++ (b ++ text)) (absent : '\x7b' ∉ before)
    (split : ∀ rest, ',' ∉ rest → Text.splitAt ',' (before ++ rest) = pieces ++ [rest]) :
    importNames clause =
      pieces.filterMap outerName? ++ o.names.map fun n => String.ofList n.chars := by
  cases writes with
  | @whole n =>
    have body : '\x7b' ∉ before ++ (b ++ ("* as ".toList ++ n.chars)) := by
      simp [absent, brace_notMem_blank blank, n.brace_notMem]
    have last : ',' ∉ b ++ ("* as ".toList ++ n.chars) := by
      simp [comma_notMem_blank blank, n.comma_notMem]
    rw [importNames_of_notMem bare body, split _ last, List.filterMap_append,
      List.filterMap_cons_some (outerName_whole n blank)]
    rfl
  | @listed ss inner lists =>
    have braces : withoutType (Text.trim clause) =
        (before ++ b) ++ '\x7b' :: (inner ++ ['\x7d']) := by
      simpa using bare
    have outside : '\x7b' ∉ before ++ b := by
      simp [absent, brace_notMem_blank blank]
    rw [importNames_of_braces braces outside, split b (comma_notMem_blank blank),
      List.filterMap_append, List.filterMap_cons_none (outerName_blank blank), lists.names]
    simp [Bindings.names]

namespace Binds

variable {d : Option BindingName} {o : Option Bindings} {body clause : List Char}

theorem tight (binds : Binds d o body) : Text.Tight body := by
  cases binds with
  | @default n => exact n.tight
  | others writes => exact writes.tight
  | @both n o text b₁ b₂ _ _ writes =>
    have whole := n.tight.append (b₁ ++ ',' :: b₂) writes.tight
    simpa using whole

/-- No mark of types is cut off from what a clause binds. -/
theorem withoutType (binds : Binds d o body) : withoutType body = body := by
  cases binds with
  | @default n => exact n.withoutType_chars
  | others writes =>
    have other : Text.afterStart? "type ".toList body = none := by
      rw [Option.eq_none_iff_forall_ne_some]
      intro after found
      have first : body.head? = some 't' := by rw [Text.afterStart?_eq_some_iff.mp found]; rfl
      simpa using writes.head 't' first
    rw [Script.withoutType, other, Option.getD_none]
  | @both n o text b₁ b₂ blank₁ _ _ =>
    rw [List.append_assoc]
    refine n.withoutType_append fun c first => ?_
    cases b₁ with
    | nil =>
      obtain rfl : ',' = c := by simpa using first
      decide +kernel
    | cons c' b₁ =>
      obtain rfl : c' = c := by simpa using first
      exact identifies_of_isBlank (blank₁ c' List.mem_cons_self)

/-- Exactly the bound names are read. -/
theorem names (binds : Binds d o body) (bare : Script.withoutType (Text.trim clause) = body)
    (typeOnly : Bool) : importNames clause = (ImportClause.mk typeOnly d o).names := by
  have none : Blank [] := List.forall_mem_nil _
  cases binds with
  | @default n =>
    have name : outerName? n.chars = some (String.ofList n.chars) := by
      simpa using n.outerName none none
    rw [importNames_of_notMem bare n.brace_notMem, Text.splitAt_eq_singleton n.comma_notMem,
      List.filterMap_cons_some name]
    rfl
  | others writes =>
    exact writes.names [] [] (b := []) none bare List.not_mem_nil fun rest absent =>
      Text.splitAt_eq_singleton absent
  | @both n o text b₁ b₂ blank₁ blank₂ writes =>
    have first : ',' ∉ n.chars ++ b₁ := by
      simp [n.comma_notMem, comma_notMem_blank blank₁]
    have name : outerName? (n.chars ++ b₁) = some (String.ofList n.chars) := by
      simpa using n.outerName none blank₁
    have absent : '\x7b' ∉ n.chars ++ b₁ ++ [','] := by
      simp [n.brace_notMem, brace_notMem_blank blank₁]
    have split : ∀ rest, ',' ∉ rest →
        Text.splitAt ',' (n.chars ++ b₁ ++ [','] ++ rest) = [n.chars ++ b₁] ++ [rest] := by
      intro rest last
      rw [List.append_assoc, List.singleton_append, Text.splitAt_append,
        Text.splitAt_eq_singleton first, Text.splitAt_eq_singleton last]
    rw [writes.names _ _ blank₂ (by simpa using bare) absent split, List.filterMap_cons_some name]
    rfl

end Binds

/-- Exactly the names that a clause takes from the module are found in it, in their order. -/
theorem importNames_writes {c : ImportClause} {clause : List Char} (writes : c.Writes clause) :
    importNames clause = c.names := by
  cases writes with
  | values binds => exact binds.names (by rw [binds.tight.trim, binds.withoutType]) false
  | @types d o body binds =>
    have tight : Text.Tight ("type ".toList ++ body) :=
      (Text.Tight.singleton (c := 't') (by decide)).append "ype ".toList binds.tight
    exact binds.names (by rw [tight.trim, withoutType_type]) true

/-- A default and a list over several lines, with a marked type, a renaming and a last comma. -/
theorem importNames_default_and_list :
    importNames "type Base , \x7b\n  type Options,\n  load as fetch ,\n\x7d".toList =
      ["Base", "Options", "load"] := by
  let base : BindingName := ⟨"Base".toList, by decide, by decide⟩
  let options : BindingName := ⟨"Options".toList, by decide, by decide⟩
  let load : BindingName := ⟨"load".toList, by decide, by decide⟩
  let fetch : BindingName := ⟨"fetch".toList, by decide, by decide⟩
  have blank : Blank [' '] ∧ Blank ['\n'] ∧ Blank ['\n', ' ', ' '] ∧ Blank [] := by decide
  obtain ⟨space, line, indent, none⟩ := blank
  have lists : Lists [.typed options, .renamed load fetch]
      "\n  type Options,\n  load as fetch ,\n".toList :=
    .more indent none (.more indent space (.none line))
  have binds : Binds (some base) (some (.listed [.typed options, .renamed load fetch]))
      "Base , \x7b\n  type Options,\n  load as fetch ,\n\x7d".toList :=
    .both space space (.listed lists)
  exact importNames_writes (.types binds)

end CodeAtlas.Source.Script
