import CodeAtlas.Proofs.Source.Extension

/-!
# The supertypes that a heading declares

Of the types that a class or an interface says it implements, all are found. The list of extended
types is looked for by its word, which bounds of type parameters have as well: where a parameter has a
bound, the first bound is taken for the list, and the parameters after it for further types. And a list
of extended types is read only up to its first type with nested arguments.
-/

namespace CodeAtlas.Source

open Pattern Script

/-! ### What is read of a heading -/

/-- The names of parameters up to and including the first with a bound, read as types. -/
def namesThrough : List TypeParameter → List TypeName
  | [] => []
  | ⟨name, none⟩ :: ps => .ofName name :: namesThrough ps
  | ⟨name, some _⟩ :: _ => [.ofName name]

/-- The first bound, and the names of parameters after it, read as types. -/
def boundsRead : List TypeParameter → List TypeName
  | [] => []
  | ⟨_, none⟩ :: ps => boundsRead ps
  | ⟨_, some t⟩ :: ps => t :: namesThrough ps

/-- What is taken for the list of extended types. -/
def Heading.read (h : Heading) : List TypeName :=
  if h.parameters.any (·.bound.isSome) then boundsRead h.parameters else h.extended

theorem Heading.read_of_free {h : Heading} (free : ∀ p ∈ h.parameters, p.bound = none) :
    h.read = h.extended := by
  have none : h.parameters.any (·.bound.isSome) = false := by
    simpa using free
  simp [read, none]

theorem throughNested_eq {ts : List TypeName} (flat : ∀ t ∈ ts.dropLast, t.nested = false) :
    throughNested ts = ts := by
  induction ts with
  | nil => rfl
  | cons t ts ih =>
    cases ts with
    | nil => simp [throughNested]
    | cons u us =>
      obtain ⟨here, others⟩ := List.forall_mem_cons.mp flat
      rw [throughNested, ih others]
      simp [here]

/-! ### The words in a heading -/

/-- Where no name goes on after a text, the text ends with no word character. -/
theorem wordSide_last {before text : List Char}
    (apart : ∀ c, (before ++ text).getLast? = some c → continuesName c = false) :
    wordSide text.getLast? = false := by
  cases last : text.getLast? with
  | none => rfl
  | some c =>
    have ends := apart c (by simp [last])
    simp only [continuesName, Bool.or_eq_false_iff] at ends
    simpa [wordSide] using ends.1

/-- The word of a list is kept apart from a name before it. -/
theorem Clause.parted {word : String} {ts : List TypeName} {before left text after : List Char}
    (clause : Clause word ts (before ++ left) text) (parted : text = [] → Parted left after) :
    Parted left (text ++ after) := by
  intro c last continues
  cases clause with
  | absent => exact parted rfl c last continues
  | @present _ _ b₁ b₂ text blank₁ blank₂ _ apart _ =>
    cases b₁ with
    | nil =>
      have ends := apart c (by simp [last])
      simp [continues] at ends
    | cons d b₁ => exact breaks_cons (dotted_of_isBlank (blank₁ d List.mem_cons_self)) _

theorem Clause.refuses {word : String} {ts : List TypeName} {before text after : List Char}
    (known : word ∈ clauseWords) (clause : Clause word ts before text)
    (refuses : Refuses ['<', ','] after) : Refuses ['<', ','] (text ++ after) := by
  cases clause with
  | absent => exact refuses
  | @present _ _ b₁ b₂ text blank₁ _ _ _ _ =>
    obtain ⟨c, rest, letters, starts, -⟩ := spelled_word known
    have continues := continuesName_of_startsName starts
    have shape : b₁ ++ word.toList ++ b₂ ++ text ++ after =
        b₁ ++ c :: (rest ++ b₂ ++ text ++ after) := by
      simp [letters]
    rw [shape]
    refine blank₁.refuses (isBlank_of_continuesName continues) (fun member => ?_) _
    have opened : continuesName '<' = false := by
      decide
    have comma : continuesName ',' = false := by
      decide
    rcases List.mem_pair.mp member with rfl | rfl
    · simp [opened] at continues
    · simp [comma] at continues

/-- The end of a heading's line parts every name from it. -/
theorem breaks_close {b₁ : List Char} (blank₁ : Blank b₁) (b₂ : List Char) :
    Breaks (b₁ ++ '\x7b' :: b₂) :=
  blank₁.breaks (breaks_cons (by decide) _)

theorem Written.starts_notBlank {ts : List TypeName} {text : List Char} (written : Written ts text)
    (after : List Char) : ∀ c, (text ++ after).head? = some c → Text.isBlank c = false := by
  obtain ⟨c, rest, rfl, starts⟩ := written.starts
  intro d first
  obtain rfl : c = d := by simpa using first
  exact isBlank_of_continuesName (continuesName_of_startsName starts)

/-- All types after `implements` are found. -/
theorem Heading.Continues.implemented {h : Heading} {tail : List Char} (continues : h.Continues tail) :
    clauseTypes implementsClause tail = h.implemented.map (·.last) := by
  have known : "implements" ∈ clauseWords := by
    decide
  have other : "implements" ≠ "extends" := by
    decide
  obtain @⟨ps, ext, impl, b₁, b₂, parameters, extended, implemented, blank₁, blank₂⟩ := continues
  have parted : Parted ext (impl ++ (b₁ ++ '\x7b' :: b₂)) :=
    implemented.parted fun _ => (breaks_close blank₁ b₂).parted ext
  rw [implementsClause_eq]
  generalize h.implemented = ts at implemented
  cases implemented with
  | absent =>
    refine clauseTypes_absent known ?_
    refine .append (.append (.append (.append (parameters.free known (.inr other)) ?_) ?_)
      (.blank known blank₁)) (.cons known (by decide) (.blank known blank₂))
    · exact extended.free known List.mem_cons_self other (by simpa using parted)
    · exact .blank known (by simp [Blank])
  | @present _ _ b b' text blank blank' nonempty apart written =>
    have shape : ps ++ ext ++ (b ++ "implements".toList ++ b' ++ text) ++ b₁ ++ '\x7b' :: b₂ =
        (ps ++ ext ++ b) ++ ("implements".toList ++ (b' ++ (text ++ (b₁ ++ '\x7b' :: b₂)))) := by
      simp
    have same : h.name.toList ++ (ps ++ ext ++ b) = h.name.toList ++ ps ++ ext ++ b := by
      simp
    rw [← same] at apart
    rw [shape]
    refine clauseTypes_present known (.append (.append (parameters.free known (.inr other)) ?_)
      (.blank known blank)) (wordSide_last apart) blank' nonempty (written.starts_notBlank _)
      fun here split => ⟨text, written.collects_implemented blank₁ blank₂ split, ?_⟩
    · exact extended.free known List.mem_cons_self other (by simpa using parted)
    · exact written.lastSegments (b := []) (by simp [Blank])

/-! ### Bounds of type parameters -/

/-- Nothing is left, or after blanks the word before the next bound. -/
def NextBound (left : List Char) : Prop :=
  left = [] ∨ ∃ b rest, Blank b ∧ b ≠ [] ∧ left = b ++ ("extends".toList ++ rest)

section Bounds

variable {ps : List TypeParameter} {text left : List Char}

theorem NextBound.parted {b : List Char} (next : NextBound left) (blank : Blank b)
    (types rest : List Char) : Parted types (left ++ (b ++ '>' :: rest)) := by
  rcases next with rfl | ⟨b', more, blank', nonempty, rfl⟩
  · exact (blank.breaks (breaks_cons (by decide) _)).parted types
  · rw [List.append_assoc]
    exact (blank'.breaks_of_ne_nil nonempty _).parted types

theorem NextBound.refuses {b : List Char} (next : NextBound left) (blank : Blank b)
    (rest : List Char) : Refuses ['<', ','] (left ++ (b ++ '>' :: rest)) := by
  rcases next with rfl | ⟨b', more, blank', nonempty, rfl⟩
  · exact blank.refuses (by decide) (by decide) _
  · rw [List.append_assoc]
    exact blank'.refuses (by decide) (by decide) _

/-- The names of parameters are a list of types up to the next bound. -/
theorem WrittenParameters.namesThrough (written : WrittenParameters ps text) :
    ∃ types left, text = types ++ left ∧ Written (namesThrough ps) types ∧ NextBound left := by
  induction written with
  | single writes =>
    cases writes with
    | @unbounded name named => exact ⟨name.toList, [], by simp, named.written, .inl rfl⟩
    | @bounded name t b₁ b₂ text named blank₁ apart₁ _ _ _ =>
      exact ⟨name.toList, b₁ ++ ("extends".toList ++ (b₂ ++ text)), by simp, named.written,
        .inr ⟨b₁, _, blank₁, apart₁, rfl⟩⟩
  | @more p ps text others b₁ b₂ writes blank₁ blank₂ _ ih =>
    cases writes with
    | @unbounded name named =>
      obtain ⟨types, left, rfl, written, next⟩ := ih
      exact ⟨name.toList ++ b₁ ++ ',' :: (b₂ ++ types), left, by simp,
        .more named.written blank₁ blank₂ written, next⟩
    | @bounded name t b₁' b₂' text named blank₁' apart₁ _ _ _ =>
      exact ⟨name.toList, b₁' ++ ("extends".toList ++ (b₂' ++ text ++ b₁ ++ ',' :: (b₂ ++ others))),
        by simp, named.written, .inr ⟨b₁', _, blank₁', apart₁, rfl⟩⟩

/-- What a search for the list of extended types finds in a list of type parameters. -/
structure Bounded (ps : List TypeParameter) (text before gap types left : List Char) : Prop where
  split : text = before ++ ("extends".toList ++ (gap ++ (types ++ left)))
  free : ∀ after, Free "extends" before after
  kept : ∃ cs c, before = cs ++ [c] ∧ Text.isBlank c = true
  blank : Blank gap
  nonempty : gap ≠ []
  written : Written (boundsRead ps) types
  next : NextBound left

theorem WrittenParameters.bounded (written : WrittenParameters ps text)
    (some : ps.any (·.bound.isSome) = true) :
    ∃ before gap types left, Bounded ps text before gap types left := by
  have known : "extends" ∈ clauseWords := by
    decide
  have free {name : String} (named : Named name) {b : List Char} (blank : Blank b) (apart : b ≠ [])
      (after : List Char) : Free "extends" (name.toList ++ b) after :=
    .append (.name known named.spelled (blank.breaks_of_ne_nil apart after).endsName
      (.inl (named.plain _ known))) (.blank known blank)
  have kept {b : List Char} (cs : List Char) (blank : Blank b) (apart : b ≠ []) :
      ∃ cs' c, cs ++ b = cs' ++ [c] ∧ Text.isBlank c = true :=
    ⟨cs ++ b.dropLast, b.getLast apart, by rw [List.append_assoc, List.dropLast_concat_getLast],
      blank _ (List.getLast_mem apart)⟩
  induction written with
  | single writes =>
    cases writes with
    | unbounded _ => simp at some
    | @bounded name t b₁ b₂ text named blank₁ apart₁ blank₂ apart₂ written =>
      exact ⟨name.toList ++ b₁, b₂, text, [], by simp, free named blank₁ apart₁,
        kept _ blank₁ apart₁, blank₂, apart₂, written, .inl rfl⟩
  | @more p ps text others b₁ b₂ writes blank₁ blank₂ rest ih =>
    cases writes with
    | @unbounded name named =>
      obtain ⟨before, gap, types, left, found⟩ := ih (by simpa using some)
      obtain ⟨cs, c, rfl, isBlank⟩ := found.kept
      refine ⟨name.toList ++ b₁ ++ ',' :: (b₂ ++ (cs ++ [c])), gap, types, left,
        by simp [found.split], fun after => ?_,
        ⟨name.toList ++ b₁ ++ ',' :: (b₂ ++ cs), c, by simp, isBlank⟩, found.blank,
        found.nonempty, found.written, found.next⟩
      refine .append (.append (.name known named.spelled ?_ (.inl (named.plain _ known)))
        (.blank known blank₁)) (.cons known (by decide)
          (.append (.blank known blank₂) (found.free _)))
      exact (blank₁.breaks (breaks_cons (by decide) _)).endsName
    | @bounded name t b₁' b₂' text named blank₁' apart₁ blank₂' apart₂ written =>
      obtain ⟨types, left, rfl, names, next⟩ := rest.namesThrough
      exact ⟨name.toList ++ b₁', b₂', text ++ b₁ ++ ',' :: (b₂ ++ types), left, by simp,
        free named blank₁' apart₁, kept _ blank₁' apart₁, blank₂', apart₂,
        .more written blank₁ blank₂ names, next⟩

end Bounds

section Extended

variable {h : Heading} {tail : List Char}

/-- Where a parameter has a bound, the list is what is read of the bounds. -/
theorem Heading.Continues.extended_of_bound (continues : h.Continues tail)
    (some : h.parameters.any (·.bound.isSome) = true) :
    clauseTypes extendsClause tail = (throughNested (boundsRead h.parameters)).map (·.last) := by
  have known : "extends" ∈ clauseWords := by
    decide
  obtain @⟨ps, ext, impl, b₁, b₂, parameters, -, -, -, -⟩ := continues
  generalize h.parameters = params at parameters some
  cases parameters with
  | absent => simp at some
  | @present _ b b' b'' text blank blank' blank'' written =>
    obtain ⟨before, gap, types, left, found⟩ := written.bounded some
    obtain ⟨cs, c, last, isBlank⟩ := found.kept
    let rest := left ++ (b'' ++ '>' :: (ext ++ impl ++ b₁ ++ '\x7b' :: b₂))
    have shape : b ++ '<' :: (b' ++ text ++ b'' ++ ['>']) ++ ext ++ impl ++ b₁ ++ '\x7b' :: b₂ =
        (b ++ '<' :: (b' ++ before)) ++ ("extends".toList ++ (gap ++ (types ++ rest))) := by
      simp [found.split, rest]
    have kept : wordSide (b ++ '<' :: (b' ++ before)).getLast? = false := by
      have shape : b ++ '<' :: (b' ++ before) = b ++ '<' :: (b' ++ cs) ++ [c] := by
        simp [last]
      rw [shape, List.getLast?_concat]
      exact isWord_of_isBlank isBlank
    rw [extendsClause_eq, shape]
    refine clauseTypes_present known (.append (.blank known blank) (.cons known (by decide)
      (.append (.blank known blank') (found.free _)))) kept found.blank found.nonempty
      (found.written.starts_notBlank _) fun here split => ?_
    exact found.written.collects_extended split (found.next.parted blank'' types _)
      (found.next.refuses blank'' _)

/-- Where no parameter has a bound, the list is that of the heading. -/
theorem Heading.Continues.extended_of_free (continues : h.Continues tail)
    (free : ∀ p ∈ h.parameters, p.bound = none) :
    clauseTypes extendsClause tail = (throughNested h.extended).map (·.last) := by
  have known : "extends" ∈ clauseWords := by
    decide
  obtain @⟨ps, ext, impl, b₁, b₂, parameters, extended, implemented, blank₁, blank₂⟩ := continues
  have close := breaks_close blank₁ b₂
  rw [extendsClause_eq]
  generalize h.extended = ts at extended
  cases extended with
  | absent =>
    refine clauseTypes_absent known (.append (.append (.append (.append
      (parameters.free known (.inl free)) (.blank known (by simp [Blank]))) ?_)
      (.blank known blank₁)) (.cons known (by decide) (.blank known blank₂)))
    exact implemented.free known (by decide) (by decide) (by simpa using close.parted impl)
  | @present _ _ b b' text blank blank' nonempty apart written =>
    have same : h.name.toList ++ ps ++ (b ++ "extends".toList ++ b' ++ text) =
        h.name.toList ++ ps ++ (b ++ "extends".toList ++ b') ++ text := by
      simp
    rw [same] at implemented
    have parted : Parted text (impl ++ (b₁ ++ '\x7b' :: b₂)) :=
      implemented.parted fun _ => close.parted text
    have refuses : Refuses ['<', ','] (impl ++ (b₁ ++ '\x7b' :: b₂)) :=
      implemented.refuses (by decide) (blank₁.refuses (by decide) (by decide) _)
    have shape : ps ++ (b ++ "extends".toList ++ b' ++ text) ++ impl ++ b₁ ++ '\x7b' :: b₂ =
        (ps ++ b) ++ ("extends".toList ++ (b' ++ (text ++ (impl ++ (b₁ ++ '\x7b' :: b₂))))) := by
      simp
    rw [List.append_assoc] at apart
    rw [shape]
    exact clauseTypes_present known (.append (parameters.free known (.inl free))
      (.blank known blank)) (wordSide_last apart) blank' nonempty (written.starts_notBlank _)
      fun here split => written.collects_extended split parted refuses

/-- What is taken for the list of extended types is found up to its first nested type. -/
theorem Heading.Continues.extended (continues : h.Continues tail) :
    clauseTypes extendsClause tail = (throughNested h.read).map (·.last) := by
  by_cases some : h.parameters.any (·.bound.isSome) = true
  · rw [Heading.read, if_pos some]
    exact continues.extended_of_bound some
  · rw [Heading.read, if_neg some]
    exact continues.extended_of_free (by simpa using some)

end Extended

end CodeAtlas.Source
