import CodeAtlas.Proofs.Source.Inheritance
import CodeAtlas.Proofs.Source.Plain

/-!
# What the line of a heading declares

The first line with the heading of a class or an interface declares one symbol of its kind and name.
Its implemented types are those of the heading; its extended types are those that are read as such,
which a bound of a type parameter or a nested type can make others than the heading's.
-/

namespace CodeAtlas.Source

open Pattern Script

/-! ### The line of a heading -/

/-- A line that begins with a word, perhaps after others, and names something. -/
def headerOf (modifiers : List String) (word : String) : Pattern :=
  seq textStart (seq blanks
    (sequence (modifiers.map modifier ++ [literal word, blanks1, group 1 name])))

theorem classHeader_eq : classHeader = headerOf ["export", "default", "abstract"] "class" :=
  rfl

theorem interfaceHeader_eq : interfaceHeader = headerOf ["export", "declare"] "interface" :=
  rfl

/-- None of some words begins as a text does. -/
def BeginOtherwise (words : List String) (cs : List Char) : Prop :=
  ∀ word ∈ words, word.toList ≠ [] ∧ word.toList.head? ≠ cs.head?

section Lines

variable {modifiers : List String} {word : String} {here there : Place} {ps : List Pattern}

theorem fails_literal (nonempty : word.toList ≠ []) (other : word.toList.head? ≠ here.rest.head?) :
    Fails (literal word) here := by
  refine .literal fun start => other ?_
  obtain ⟨rest, split⟩ := start
  rw [← split, List.head?_append_of_ne_nil _ nonempty]

theorem first_modifiers (others : BeginOtherwise modifiers here.rest)
    (first : First (sequence ps) here there) :
    First (sequence (modifiers.map modifier ++ ps)) here there := by
  induction modifiers with
  | nil => exact first
  | cons m modifiers ih =>
    obtain ⟨⟨nonempty, other⟩, others⟩ := List.forall_mem_cons.mp others
    exact .sequence (.optional_none (fails_literal nonempty other).seq) (ih others)

theorem fails_modifiers (others : BeginOtherwise modifiers here.rest)
    (fails : Fails (sequence ps) here) : Fails (sequence (modifiers.map modifier ++ ps)) here := by
  induction modifiers with
  | nil => exact fails
  | cons m modifiers ih =>
    obtain ⟨⟨nonempty, other⟩, others⟩ := List.forall_mem_cons.mp others
    exact .optional_sequence (fails_literal nonempty other).seq (ih others)

/-- A line that begins with another word does not fit. -/
theorem search_headerOf_none {b rest : List Char} (blank : Blank b)
    (others : BeginOtherwise (word :: modifiers) rest)
    (letters : ∀ w ∈ word :: modifiers, w.toList.any (Text.isBlank ·) = false)
    (ended : ∀ c, rest.head? = some c → Text.isBlank c = false) :
    (headerOf modifiers word).search (b ++ rest) = none := by
  have split : (Place.ofText (b ++ rest)).rest = b ++ rest := rfl
  rw [search, ← split]
  refine Fails.searchFrom fun t _ => ?_
  cases t with
  | cons c t => exact (Fails.textStart (by simp)).seq
  | nil =>
    rw [Place.past_nil]
    refine .after_textStart (.after_characters split ended fun s start => ?_)
    obtain ⟨u, rfl⟩ := start
    have left : ((Place.ofText (s ++ u ++ rest)).past s).rest = u ++ rest :=
      Place.past_rest (by rw [split, List.append_assoc])
    have here : BeginOtherwise (word :: modifiers) (u ++ rest) := by
      cases u with
      | nil => exact others
      | cons c u =>
        refine fun w member => ⟨(others w member).1, fun same => ?_⟩
        have inWord : c ∈ w.toList := List.mem_of_mem_head? same
        have noBlank := List.any_eq_false.mp (letters w member) c inWord
        exact noBlank (blank c (by simp))
    obtain ⟨⟨nonempty, other⟩, modifiers⟩ := List.forall_mem_cons.mp here
    rw [← left] at other
    exact fails_modifiers (left ▸ modifiers) ((fails_literal nonempty other).sequence _)

theorem first_name {n : String} {after : List Char} (spelled : Spelled n) (breaks : Breaks after)
    (split : here.rest = n.toList ++ after) : First name here (here.past n.toList) := by
  obtain ⟨c, rest, letters, starts, continues⟩ := spelled
  rw [letters] at split ⊢
  have more : (here.past [c]).rest = rest ++ after := Place.past_one_rest split
  rw [← List.singleton_append, ← Place.past_past]
  exact .seq (.one split starts) (.characters more continues breaks.endsName)

/-- A line with the word and a name fits up to the end of the name. -/
theorem search_headerOf {b b' tail : List Char} {n : String}
    (others : BeginOtherwise modifiers word.toList) (written : Spelled word) (blank : Blank b)
    (blank' : Blank b') (apart : b' ≠ []) (spelled : Spelled n) (breaks : Breaks tail) :
    ∃ m, (headerOf modifiers word).search (b ++ word.toList ++ b' ++ n.toList ++ tail) = some m ∧
      m.string 1 = n ∧ m.stop.rest = tail := by
  let start := Place.ofText (b ++ word.toList ++ b' ++ n.toList ++ tail)
  have split : start.rest = b ++ (word.toList ++ (b' ++ (n.toList ++ tail))) := by
    simp [start, Place.ofText]
  have atWord := Place.past_rest split
  have atGap := Place.past_rest atWord
  have atName := Place.past_rest atGap
  have atTail := Place.past_rest atName
  let stop := Place.closing 1 (((start.past b).past word.toList).past b')
    ((((start.past b).past word.toList).past b').past n.toList)
  have others : BeginOtherwise modifiers (start.past b).rest := by
    intro m member
    rw [atWord, List.head?_append_of_ne_nil _ written.ne_nil]
    exact others m member
  have fits : First (headerOf modifiers word) start stop :=
    .seq (.textStart rfl) (.seq (.characters split blank (written.starts_notBlank _))
      (first_modifiers others (.seq (.literal atWord)
        (.seq (first_blanks1 blank' apart atGap (spelled.starts_notBlank _))
          (.group 1 (first_name spelled breaks atName))))))
  have groups : stop.groups = [(1, ⟨(((start.past b).past word.toList).past b').offset,
      n.toList ++ tail,
      (((start.past b).past word.toList).past b').offset + n.toList.length⟩)] := by
    rw [← atName]
    rfl
  have text : Match.text ⟨start.offset, stop⟩ 1 = n.toList := Match.text_of_groups groups
  refine ⟨⟨start.offset, stop⟩, fits.searchFrom _, ?_, atTail⟩
  rw [Match.string, text, String.ofList_toList]

end Lines

/-- No name goes on after the name of a heading. -/
theorem Heading.Continues.breaks {h : Heading} {tail : List Char} (continues : h.Continues tail)
    (spelled : Spelled h.name) : Breaks tail := by
  obtain @⟨ps, ext, impl, b₁, b₂, parameters, extended, implemented, blank₁, blank₂⟩ := continues
  generalize h.parameters = params at parameters
  cases parameters with
  | @present _ b _ _ _ blank _ _ _ =>
    simp only [List.append_assoc]
    exact blank.breaks (breaks_cons (by decide) _)
  | absent =>
    have extended : Clause "extends" h.extended ([] ++ h.name.toList) ext := by
      simpa using extended
    have parted : Parted h.name.toList (ext ++ (impl ++ (b₁ ++ '\x7b' :: b₂))) := by
      refine extended.parted fun noExtended => ?_
      have implemented : Clause "implements" h.implemented ([] ++ h.name.toList) impl := by
        simpa [noExtended] using implemented
      exact implemented.parted fun _ => (breaks_close blank₁ b₂).parted _
    have nonempty := spelled.ne_nil
    have last := List.getLast?_eq_some_getLast nonempty
    simpa using parted _ last (spelled.continues _ (List.getLast_mem nonempty))

/-- The line of an interface has no header of a class. -/
theorem no_classHeader {b₁ : List Char} (blank : Blank b₁) (after : List Char) :
    classHeader.search (b₁ ++ ("interface".toList ++ after)) = none := by
  have written : Spelled "interface" := by
    decide +kernel
  have otherwise : BeginOtherwise ["class", "export", "default", "abstract"]
      ("interface".toList ++ after) := by
    have letters : ∀ w ∈ ["class", "export", "default", "abstract"],
        w.toList ≠ [] ∧ w.toList.head? ≠ some 'i' := by
      decide
    exact letters
  rw [classHeader_eq]
  exact search_headerOf_none blank otherwise (by decide) (written.starts_notBlank _)

/-- What is read off the line of a heading. -/
theorem Heading.Heads.header {h : Heading} {line : List Char} (heads : h.Heads line) :
    header? line = some ⟨h.kind, h.name, (throughNested h.read).map (·.last),
      h.implemented.map (·.last)⟩ := by
  obtain @⟨b₁, b₂, tail, kind, blank₁, blank₂, apart, spelled, continues⟩ := heads
  have breaks := continues.breaks spelled
  rcases kind with isClass | ⟨isInterface, nothing⟩
  · have written : Spelled "class" := by
      decide +kernel
    have others : BeginOtherwise ["export", "default", "abstract"] "class".toList := by
      unfold BeginOtherwise
      decide
    obtain ⟨m, found, name, rest⟩ :=
      search_headerOf others written blank₁ blank₂ apart spelled breaks
    rw [isClass]
    rw [← classHeader_eq] at found
    change header? (b₁ ++ "class".toList ++ b₂ ++ h.name.toList ++ tail) = _
    simp only [header?, found, name, rest, continues.extended, continues.implemented]
  · have written : Spelled "interface" := by
      decide +kernel
    have others : BeginOtherwise ["export", "declare"] "interface".toList := by
      unfold BeginOtherwise
      decide
    obtain ⟨m, found, name, rest⟩ :=
      search_headerOf others written blank₁ blank₂ apart spelled breaks
    have noClass : classHeader.search
        (b₁ ++ "interface".toList ++ b₂ ++ h.name.toList ++ tail) = none := by
      simp only [List.append_assoc]
      exact no_classHeader blank₁ _
    rw [isInterface]
    rw [← interfaceHeader_eq] at found
    change header? (b₁ ++ "interface".toList ++ b₂ ++ h.name.toList ++ tail) = _
    simp only [header?, noClass, found, name, rest, continues.extended, nothing, List.map_nil]

/-! ### The declaration of a heading -/

section Declarations

variable {stripped : List (List Char)} {line : List Char} {before after : List (List Char)}

/-- The first declaration of a kind and name is kept. -/
theorem mem_distinct {seen : List (NodeKind × String)} {d : Declaration}
    {earlier later : List Declaration} (fresh : d.key ∉ seen)
    (first : ∀ e ∈ earlier, e.key ≠ d.key) :
    d ∈ Declaration.distinct seen (earlier ++ d :: later) := by
  induction earlier generalizing seen with
  | nil =>
    have isNew : ¬ seen.contains (d.kind, d.name) = true := by
      simpa [Declaration.key] using fresh
    simp only [List.nil_append, Declaration.distinct, if_neg isNew]
    exact List.mem_cons_self
  | cons e earlier ih =>
    obtain ⟨other, others⟩ := List.forall_mem_cons.mp first
    rw [List.cons_append, Declaration.distinct]
    split
    · exact ih fresh others
    · refine List.mem_cons_of_mem e (ih (fun member => ?_) others)
      rcases List.mem_cons.mp member with same | old
      · exact other same.symm
      · exact fresh old

theorem declarationsFrom_append (n : Nat) :
    declarationsFrom stripped n (before ++ after) =
      declarationsFrom stripped n before ++ declarationsFrom stripped (n + before.length) after := by
  rw [declarationsFrom_eq, List.zipIdx_append, List.filterMap_append, ← declarationsFrom_eq,
    ← declarationsFrom_eq]

/-- What the first line with a kind and a name declares is a declaration of the script. -/
theorem mem_declarations {g : Header} (found : header? line = some g)
    (first : ∀ earlier ∈ before, ∀ e, header? earlier = some e →
      (e.kind, e.name) ≠ (g.kind, g.name)) :
    ∃ lineEnd, (⟨g.name, g.kind, before.length + 1, lineEnd, g.extended, g.implemented⟩ :
      Declaration) ∈ declarations (before ++ line :: after) := by
  refine ⟨bracedEnd ((before ++ line :: after).map withoutStrings) before.length, ?_⟩
  rw [declarations, List.mem_mergeSort, List.mem_append]
  left
  rw [declarationsFrom_append, declarationsFrom, found, Nat.zero_add]
  refine mem_distinct (by simp) fun e member => ?_
  obtain ⟨earlier, n, h, numbered, declares, rfl⟩ := exists_header member
  exact first earlier (List.fst_mem_of_mem_zipIdx numbered) h declares

end Declarations

/-- What is declared by the first line with the heading of a class or an interface: one symbol, with
all the types after `implements`, and with the types read as extended up to the first nested one.
These are the extended types unless a parameter has a bound or a type before the last is nested. -/
theorem parse_heading {content path : String} {language : Language} {h : Heading}
    {before after : List (List Char)} {line : List Char}
    (known : Language.ofPath? path = some language) (braces : language.usesBraces = true)
    (lines : Text.lines content.toList = before ++ line :: after) (heads : h.Heads line)
    (first : ∀ earlier ∈ before, ∀ e, Script.header? earlier = some e →
      (e.kind, e.name) ≠ (h.kind, h.name)) :
    ∃ d ∈ (parse content path).declarations, d.key = (h.kind, h.name) ∧
      (∀ e ∈ (parse content path).declarations, e.key = d.key → e = d) ∧
      d.lineStart = before.length + 1 ∧
      d.implemented = h.implemented.map (·.last) ∧
      d.extended = (throughNested h.read).map (·.last) ∧
      ((∀ p ∈ h.parameters, p.bound = none) → (∀ t ∈ h.extended.dropLast, t.nested = false) →
        d.extended = h.extended.map (·.last)) := by
  have declared : (parse content path).declarations =
      Script.declarations (before ++ line :: after) := by
    simp [parse, known, read, braces, lines]
  obtain ⟨lineEnd, member⟩ := mem_declarations heads.header first
  rw [← declared] at member
  refine ⟨_, member, rfl, fun e other same => ?_, rfl, rfl, rfl, fun free flat => ?_⟩
  · exact List.inj_on_of_nodup_map (parse_plain content path).keys other member same
  · rw [Heading.read_of_free free, throughNested_eq flat]

theorem parse_heading_session :
    ∃ d ∈ (parse "class Session<T> extends Base<T> implements Saved, store.Shared \x7b\n\x7d\n"
        "a.ts").declarations, d.key = (.classType, "Session") ∧ d.implemented = ["Saved", "Shared"] ∧
        d.extended = ["Base"] := by
  let base : TypeName := ⟨[], "Base", [.ofName "T"]⟩
  let shared : TypeName := ⟨["store"], "Shared", []⟩
  let h : Heading := ⟨.classType, "Session", [⟨"T", none⟩], [base], [.ofName "Saved", shared]⟩
  have none : Blank [] := by
    decide
  have space : Blank [' '] := by
    decide
  have parameter : Named "T" := by
    decide +kernel
  have saved : Named "Saved" := by
    decide +kernel
  have dottedBase : base.Dotted := ⟨by decide +kernel, by decide +kernel⟩
  have dottedShared : shared.Dotted := ⟨by decide +kernel, by decide +kernel⟩
  have parameters : ParameterList h.parameters _ :=
    .present none none none (.single (.unbounded parameter))
  have continues : h.Continues _ :=
    .tail parameters
      (.present space space (by decide) (space.keeps_apart (by decide) _)
        (.generic dottedBase none none none parameter.written))
      (.present space space (by decide) (space.keeps_apart (by decide) _)
        (.more saved.written none space (.plain dottedShared rfl))) space none
  have heads : h.Heads
      "class Session<T> extends Base<T> implements Saved, store.Shared \x7b".toList := by
    refine Eq.mp (congrArg h.Heads ?_)
      (.line (.inl rfl) none space (by decide) (by decide) continues)
    decide +kernel
  have known : Language.ofPath? "a.ts" = some .typeScript := by
    decide
  have lines : Text.lines
      "class Session<T> extends Base<T> implements Saved, store.Shared \x7b\n\x7d\n".toList =
        [] ++ "class Session<T> extends Base<T> implements Saved, store.Shared \x7b".toList ::
          [['\x7d']] := by
    decide +kernel
  obtain ⟨d, member, key, -, -, implemented, -, extended⟩ :=
    parse_heading known rfl lines heads (by simp)
  exact ⟨d, member, key, implemented, extended (by decide) (by decide)⟩

/-- The bound of a parameter is reported as an extended type of a class that extends nothing, and of two
extended types the second is not reported where the first is nested. -/
theorem parse_heading_otherwise :
    (∃ h : Heading, h.Heads "class A<T extends B> \x7b".toList ∧ h.extended = [] ∧
      ∃ d ∈ (parse "class A<T extends B> \x7b\n\x7d\n" "a.ts").declarations,
        d.key = (h.kind, h.name) ∧ d.extended = ["B"]) ∧
    ∃ h : Heading, h.Heads "interface A extends B<C<D>>, E \x7b".toList ∧
      h.extended.map (·.last) = ["B", "E"] ∧
      ∃ d ∈ (parse "interface A extends B<C<D>>, E \x7b\n\x7d\n" "a.ts").declarations,
        d.key = (h.kind, h.name) ∧ d.extended = ["B"] := by
  have none : Blank [] := by
    decide
  have space : Blank [' '] := by
    decide
  have named : ∀ name ∈ ["B", "C", "D", "E", "T"], Named name := by
    decide +kernel
  constructor
  · let h : Heading := ⟨.classType, "A", [⟨"T", some (.ofName "B")⟩], [], []⟩
    let d : Declaration := ⟨"A", .classType, 1, 2, ["B"], []⟩
    have parameters : ParameterList h.parameters _ :=
      .present none none none (.single (.bounded (named "T" (by decide)) space (by decide) space
        (by decide) (named "B" (by decide)).written))
    have continues : h.Continues _ := .tail parameters .absent .absent space none
    refine ⟨h, ?_, rfl, d, by decide +kernel, rfl, rfl⟩
    refine Eq.mp (congrArg h.Heads ?_)
      (.line (.inl rfl) none space (by decide) (by decide) continues)
    decide +kernel
  · let inner : TypeName := ⟨[], "C", [.ofName "D"]⟩
    let outer : TypeName := ⟨[], "B", [inner]⟩
    let h : Heading := ⟨.interfaceType, "A", [], [outer, .ofName "E"], []⟩
    let d : Declaration := ⟨"A", .interfaceType, 1, 2, ["B"], []⟩
    have dottedInner : inner.Dotted := ⟨by decide +kernel, by decide +kernel⟩
    have dottedOuter : outer.Dotted := ⟨by decide +kernel, by decide +kernel⟩
    have innerWritten : Written [inner] _ :=
      .generic dottedInner none none none (named "D" (by decide)).written
    have outerWritten : Written [outer] _ := .generic dottedOuter none none none innerWritten
    have continues : h.Continues _ :=
      .tail .absent (.present space space (by decide) (space.keeps_apart (by decide) _)
        (.more outerWritten none space (named "E" (by decide)).written)) .absent space none
    refine ⟨h, ?_, rfl, d, by decide +kernel, rfl, rfl⟩
    refine Eq.mp (congrArg h.Heads ?_)
      (.line (.inr ⟨rfl, rfl⟩) none space (by decide) (by decide) continues)
    decide +kernel

end CodeAtlas.Source
