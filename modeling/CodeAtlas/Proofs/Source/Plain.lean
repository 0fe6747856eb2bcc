import CodeAtlas.Proofs.Pattern.Matches
import CodeAtlas.Proofs.Source.LineByLine
import CodeAtlas.Source.Reading
import Mathlib.Data.List.Nodup

/-!
# Outlines are plain

What is read off any text under any path is plain: no declared symbol is a file, no declared name
has a colon or a greater-than sign in it, and no two declarations of a file share kind and name.
The ids of nodes and edges rest on this: a colon and an arrow separate their parts.
-/

namespace CodeAtlas

/-- A character that separates no parts of an id. -/
def PlainChar (c : Char) : Prop :=
  c ≠ ':' ∧ c ≠ '>'

/-- A name without separators. -/
def PlainName (s : String) : Prop :=
  ∀ c ∈ s.toList, PlainChar c

/-- A declaration of a symbol under a name without separators. -/
structure Declaration.Plain (d : Declaration) : Prop where
  kind : d.kind ≠ .file
  name : PlainName d.name

/-- The kind and the name of a declaration, which make its id in a file. -/
def Declaration.key (d : Declaration) : NodeKind × String :=
  (d.kind, d.name)

/-- An outline from which ids can be made. -/
structure Outline.Plain (o : Outline) : Prop where
  declarations : ∀ d ∈ o.declarations, d.Plain
  keys : (o.declarations.map Declaration.key).Nodup

/-! ### Leaving out repeated declarations -/

namespace Declaration

theorem distinct_sublist (seen : List (NodeKind × String)) (ds : List Declaration) :
    (distinct seen ds).Sublist ds := by
  fun_induction distinct seen ds with
  | case1 => exact List.Sublist.refl _
  | case2 seen d rest _ ih => exact ih.cons d
  | case3 seen d rest _ ih => exact ih.cons_cons d

/-- The declarations that are kept differ in kind or name from each other and from the earlier
ones. -/
theorem distinct_keys (seen : List (NodeKind × String)) (ds : List Declaration) :
    ((distinct seen ds).map key).Nodup ∧ ∀ k ∈ (distinct seen ds).map key, k ∉ seen := by
  fun_induction distinct seen ds with
  | case1 => simp
  | case2 seen d rest _ ih => exact ih
  | case3 seen d rest isNew ih =>
    obtain ⟨nodup, fresh⟩ := ih
    have notLater : key d ∉ (distinct ((d.kind, d.name) :: seen) rest).map key := by
      intro member
      exact fresh _ member List.mem_cons_self
    refine ⟨List.nodup_cons.mpr ⟨notLater, nodup⟩, ?_⟩
    intro k member
    rcases List.mem_cons.mp member with rfl | later
    · simpa [key] using isNew
    · exact fun old => fresh k later (List.mem_cons_of_mem _ old)

end Declaration

namespace Source

open Pattern

/-! ### Names in patterns -/

/-- A test that no separator passes is passed by plain characters only. -/
theorem plain_of_test {test : Char → Bool} (colon : test ':' = false) (greater : test '>' = false) :
    ∀ c, test c = true → PlainChar c := by
  intro c passes
  constructor
  · rintro rfl
    simp [passes] at colon
  · rintro rfl
    simp [passes] at greater

theorem name_within : Within PlainChar name :=
  ⟨plain_of_test (by decide) (by decide), plain_of_test (by decide) (by decide)⟩

theorem Python.name_within : Within PlainChar Python.name :=
  ⟨plain_of_test (by decide) (by decide), plain_of_test (by decide) (by decide)⟩

/-- The patterns of scripts whose first group is the declared name. -/
theorem Script.header_within {p : Pattern}
    (h : p ∈ [classHeader, interfaceHeader, functionHeader, arrowHeader, typeAliasHeader,
      variableHeader, methodHeader, arrowMethodHeader]) : GroupWithin 1 PlainChar p := by
  simp only [List.mem_cons, List.not_mem_nil, or_false] at h
  rcases h with rfl | rfl | rfl | rfl | rfl | rfl | rfl | rfl <;>
    simp [classHeader, interfaceHeader, functionHeader, arrowHeader, typeAliasHeader,
      variableHeader, methodHeader, arrowMethodHeader, GroupWithin, modifier, binder,
      typeAnnotation, parameters, angled, Pattern.optional, blanks, blanks1, atLeastOne, char,
      noneOf, name_within] <;>
    simp [name, GroupWithin]

/-- The patterns of Python sources in which a group is the declared name, with the group. -/
theorem Python.header_within {p : Pattern} {number : Nat}
    (h : (p, number) ∈ [(classHeader, 2), (functionHeader, 2), (constantHeader, 1)]) :
    GroupWithin number PlainChar p := by
  simp only [List.mem_cons, List.not_mem_nil, or_false, Prod.mk.injEq] at h
  rcases h with ⟨rfl, rfl⟩ | ⟨rfl, rfl⟩ | ⟨rfl, rfl⟩
  · simp [classHeader, GroupWithin, Pattern.optional, blanks, blanks1, atLeastOne, char, noneOf,
      Python.name_within]
    simp [Python.name, GroupWithin]
  · simp [functionHeader, GroupWithin, Pattern.optional, blanks, blanks1, atLeastOne, char,
      Python.name_within]
    simp [Python.name, GroupWithin]
  · simp [constantHeader, GroupWithin, Pattern.optional, blanks, atLeastOne, char, noneOf]
    exact ⟨plain_of_test (by decide) (by decide), plain_of_test (by decide) (by decide),
      plain_of_test (by decide) (by decide)⟩

/-! ### Declarations -/

/-- What a group of a match holds is a plain name if the pattern says so. -/
theorem plainName_string {p : Pattern} {number : Nat} {line : List Char} {m : Match}
    (found : p.search line = some m) (within : GroupWithin number PlainChar p) :
    PlainName (m.string number) := by
  intro c member
  exact search_text_within found within c (by simpa [Match.string] using member)

namespace Script

/-- The name in a header is the first group of a match, in which only plain characters stand. -/
theorem header_search {line : List Char} {h : Header} (found : header? line = some h) :
    h.kind ≠ .file ∧ ∃ p m, GroupWithin 1 PlainChar p ∧ p.search line = some m ∧
      h.name = m.string 1 := by
  unfold header? at found
  split at found
  · next m isClass =>
    obtain rfl := Option.some.inj found
    exact ⟨by simp, _, m, header_within (by simp), isClass, rfl⟩
  · split at found
    · next m isInterface =>
      obtain rfl := Option.some.inj found
      exact ⟨by simp, _, m, header_within (by simp), isInterface, rfl⟩
    · obtain ⟨⟨p, kind⟩, member, fits⟩ := List.exists_of_findSome?_eq_some found
      obtain ⟨m, isOther, rfl⟩ := Option.map_eq_some_iff.mp fits
      simp only [List.mem_cons, Prod.mk.injEq, List.not_mem_nil, or_false] at member
      rcases member with ⟨rfl, rfl⟩ | ⟨rfl, rfl⟩ | ⟨rfl, rfl⟩ | ⟨rfl, rfl⟩ <;>
        exact ⟨by simp, _, m, header_within (by simp), isOther, rfl⟩

theorem header_plain {line : List Char} {h : Header} (found : header? line = some h) :
    h.kind ≠ .file ∧ PlainName h.name := by
  obtain ⟨noFile, p, m, within, fits, same⟩ := header_search found
  rw [same]
  exact ⟨noFile, plainName_string fits within⟩

theorem declarationsFrom_plain (stripped : List (List Char)) (before : Nat)
    (lines : List (List Char)) : ∀ d ∈ declarationsFrom stripped before lines, d.Plain := by
  intro d member
  obtain ⟨line, n, h, -, found, rfl⟩ := exists_header member
  exact ⟨(header_plain found).1, (header_plain found).2⟩

/-- The name of a method is the first group of a match, in which only plain characters stand. -/
theorem method_search {line : List Char} {m : Match} (found : method? line = some m) :
    ∃ p, GroupWithin 1 PlainChar p ∧ p.search line = some m := by
  unfold method? at found
  split at found
  · next m' isMethod =>
    obtain rfl := Option.some.inj found
    exact ⟨_, header_within (by simp), isMethod⟩
  · exact ⟨_, header_within (by simp), found⟩

theorem method_plain {line : List Char} {m : Match} (found : method? line = some m) :
    PlainName (m.string 1) := by
  obtain ⟨p, within, fits⟩ := method_search found
  exact plainName_string fits within

theorem methodsFrom_plain (classes : List Declaration) (stripped : List (List Char))
    (before : Nat) (lines : List (List Char)) :
    ∀ d ∈ methodsFrom classes stripped before lines, d.Plain := by
  intro d member
  obtain ⟨line, n, m, -, -, found, -, rfl⟩ := exists_method member
  exact ⟨by simp, method_plain found⟩

/-- The declarations of a script are plain, and no two have kind and name in common. -/
theorem declarations_plain (lines : List (List Char)) :
    (∀ d ∈ declarations lines, d.Plain) ∧ ((declarations lines).map Declaration.key).Nodup := by
  unfold declarations
  extract_lets stripped top methods distinctMethods
  have sorted := List.mergeSort_perm (top ++ distinctMethods) fun a b => a.lineStart ≤ b.lineStart
  have topKeys := Declaration.distinct_keys [] (declarationsFrom stripped 0 lines)
  have methodKeys := Declaration.distinct_keys (top.map fun d => (d.kind, d.name)) methods
  refine ⟨?_, ?_⟩
  · intro d member
    rcases List.mem_append.mp (sorted.mem_iff.mp member) with inTop | inMethods
    · exact declarationsFrom_plain _ _ _ d ((Declaration.distinct_sublist _ _).subset inTop)
    · exact methodsFrom_plain _ _ _ _ d ((Declaration.distinct_sublist _ _).subset inMethods)
  · rw [(sorted.map Declaration.key).nodup_iff, List.map_append, List.nodup_append]
    refine ⟨topKeys.1, methodKeys.1, ?_⟩
    rintro k inTop k' inMethods rfl
    exact methodKeys.2 k inMethods inTop

end Script

namespace Python

/-- The name in a header is a group of a match, in which only plain characters stand. -/
theorem header_search {line : List Char} {h : Header} (found : header? line = some h) :
    h.kind ≠ .file ∧ ∃ p m number, GroupWithin number PlainChar p ∧ p.search line = some m ∧
      h.name = m.string number := by
  unfold header? at found
  split at found
  · next m isClass =>
    obtain rfl := Option.some.inj found
    exact ⟨by simp, _, m, 2, header_within (by simp), isClass, rfl⟩
  · split at found
    · next m isFunction =>
      obtain rfl := Option.some.inj found
      exact ⟨by simp, _, m, 2, header_within (by simp), isFunction, rfl⟩
    · obtain ⟨m, isConstant, rfl⟩ := Option.map_eq_some_iff.mp found
      exact ⟨by simp, _, m, 1, header_within (by simp), isConstant, rfl⟩

theorem header_plain {line : List Char} {h : Header} (found : header? line = some h) :
    h.kind ≠ .file ∧ PlainName h.name := by
  obtain ⟨noFile, p, m, number, within, fits, same⟩ := header_search found
  rw [same]
  exact ⟨noFile, plainName_string fits within⟩

theorem declarationsFrom_plain (all : List (List Char)) (before : Nat)
    (lines : List (List Char)) : ∀ d ∈ declarationsFrom all before lines, d.Plain := by
  intro d member
  obtain ⟨line, n, h, -, found, rfl⟩ := exists_header member
  exact ⟨(header_plain found).1, (header_plain found).2⟩

/-- The declarations of a source are plain, and no two have kind and name in common. -/
theorem declarations_plain (lines : List (List Char)) :
    (∀ d ∈ declarations lines, d.Plain) ∧ ((declarations lines).map Declaration.key).Nodup := by
  refine ⟨?_, (Declaration.distinct_keys [] _).1⟩
  intro d member
  exact declarationsFrom_plain _ _ _ d ((Declaration.distinct_sublist _ _).subset member)

end Python

/-- What is read off the lines of a text is plain, whatever the language. -/
theorem read_plain (language : Language) (content : List Char) : (read language content).Plain := by
  cases braces : language.usesBraces with
  | true =>
    obtain ⟨plain, keys⟩ := Script.declarations_plain (Text.lines content)
    exact ⟨by simpa [read, braces] using plain, by simpa [read, braces] using keys⟩
  | false =>
    obtain ⟨plain, keys⟩ := Python.declarations_plain (Text.lines content)
    exact ⟨by simpa [read, braces] using plain, by simpa [read, braces] using keys⟩

/-- The outline of any text under any path is plain. -/
theorem parse_plain (content path : String) : (parse content path).Plain := by
  unfold parse
  split
  · exact read_plain _ _
  · exact ⟨by simp [Outline.empty], by simp [Outline.empty]⟩

end Source

end CodeAtlas
