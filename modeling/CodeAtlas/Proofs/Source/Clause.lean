import CodeAtlas.Proofs.Source.Heading

/-!
# Where a list of supertypes begins

A list of supertypes begins at its word, with no word character before it and a blank after it. In a
heading the names, blanks and brackets around the lists have no such place in them, so that the search
for a list stops where the heading has the word, or finds nothing.
-/

namespace CodeAtlas.Source

open Pattern Script

/-! ### Occurrences of a word -/

/-- A word stands here with a blank after it, and no word character before it. -/
def Occurs (word : String) (before : Option Char) (rest : List Char) : Prop :=
  wordSide before = false ∧ ∃ c more, Text.isBlank c = true ∧ rest = word.toList ++ c :: more

/-- A word occurs nowhere in a text after which another one follows, whatever is before it. -/
def Free (word : String) (cs after : List Char) : Prop :=
  ∀ s t, s ++ t = cs → t ≠ [] → ∀ before, ¬ Occurs word (s.getLast?.or before) (t ++ after)

section Words

variable {word : String} {cs cs' after : List Char}

theorem spelled_word (known : word ∈ clauseWords) : Spelled word := by
  have all : ∀ word ∈ clauseWords, Spelled word := by
    decide +kernel
  exact all word known

theorem not_endsIn_word {other : String} (known : word ∈ clauseWords) (known' : other ∈ clauseWords)
    (different : word ≠ other) : ¬ EndsIn word other := by
  have suffixes : ∀ word ∈ clauseWords, ∀ other ∈ clauseWords,
      ¬ '$' :: word.toList <:+ other.toList := by
    decide +kernel
  exact fun ends => ends.elim different (suffixes word known other known')

/-- A word that occurs at a name is the whole name, and a blank follows it. -/
theorem Occurs.whole {before : Option Char} {name : List Char} (known : word ∈ clauseWords)
    (characters : ∀ c ∈ name, continuesName c = true)
    (ended : ∀ c, after.head? = some c → continuesName c = false)
    (occurs : Occurs word before (name ++ after)) :
    name = word.toList ∧ ∃ c more, Text.isBlank c = true ∧ after = c :: more := by
  obtain ⟨-, c, more, blank, split⟩ := occurs
  rcases List.append_eq_append_iff.mp split with ⟨left, rest, goesOn⟩ | ⟨left, rest, goesOn⟩
  · cases left with
    | nil => exact ⟨by simpa using rest.symm, c, more, blank, by simpa using goesOn⟩
    | cons d left =>
      have inWord := (spelled_word known).continues d (by simp [rest])
      have outside := ended d (by simp [goesOn])
      simp [inWord] at outside
  · cases left with
    | nil => exact ⟨by simpa using rest, c, more, blank, by simpa using goesOn.symm⟩
    | cons d left =>
      obtain ⟨rfl, -⟩ := List.cons.inj goesOn
      have inName := characters c (by simp [rest])
      simp [continuesName_of_isBlank blank] at inName

theorem Free.append (first : Free word cs (cs' ++ after)) (second : Free word cs' after) :
    Free word (cs ++ cs') after := by
  intro s t split nonempty before
  rcases List.append_eq_append_iff.mp split with ⟨left, rfl, rfl⟩ | ⟨left, rfl, rfl⟩
  · cases left with
    | nil => simpa using second [] cs' rfl nonempty (s.getLast?.or before)
    | cons c left =>
      rw [List.append_assoc]
      exact first s (c :: left) rfl (List.cons_ne_nil c left) before
  · have later := second left t rfl nonempty (cs.getLast?.or before)
    rwa [← Option.or_assoc, ← List.getLast?_append] at later

/-- Where no name goes on, no word begins. -/
theorem Free.of_breaks (known : word ∈ clauseWords)
    (outside : ∀ c ∈ cs, continuesName c = false) : Free word cs after := by
  intro s t split nonempty before occurs
  obtain ⟨-, c, more, -, start⟩ := occurs
  obtain ⟨e, rest, letters, starts, -⟩ := spelled_word known
  cases t with
  | nil => exact nonempty rfl
  | cons d t =>
    rw [letters] at start
    obtain ⟨rfl, -⟩ := List.cons.inj start
    have outside := outside d (by simp [← split])
    simp [continuesName_of_startsName starts] at outside

theorem Free.blank (known : word ∈ clauseWords) (blank : Blank cs) : Free word cs after :=
  .of_breaks known blank.not_continues

theorem Free.cons {c : Char} (known : word ∈ clauseWords) (ends : continuesName c = false)
    (others : Free word cs after) : Free word (c :: cs) after := by
  have first : Free word [c] (cs ++ after) :=
    .of_breaks known fun d member => List.mem_singleton.mp member ▸ ends
  exact first.append others

/-- A name that does not end in the word, or after which no blank comes, has the word nowhere. -/
theorem Free.name {name : String} (known : word ∈ clauseWords) (spelled : Spelled name)
    (ended : ∀ c, after.head? = some c → continuesName c = false)
    (apart : ¬ EndsIn word name ∨ ∀ c, after.head? = some c → Text.isBlank c = false) :
    Free word name.toList after := by
  intro s t split _ before occurs
  have characters : ∀ c ∈ t, continuesName c = true :=
    fun c member => spelled.continues c (by simp [← split, member])
  obtain ⟨rfl, c, more, blank, rfl⟩ := occurs.whole known characters ended
  rcases apart with other | noBlank
  · apply other
    rcases List.eq_nil_or_concat s with rfl | ⟨s, d, rfl⟩
    · exact .inl (String.toList_inj.mp (by simpa using split))
    · have outside : Text.isWord d = false := by
        simpa [wordSide] using occurs.1
      have inside : continuesName d = true :=
        spelled.continues d (by simp [← split])
      obtain rfl : d = '$' := by
        simpa [continuesName, outside] using inside
      exact .inr ⟨s, by simpa using split⟩
  · simp [blank] at noBlank

end Words

/-! ### Headings have the words where they say so -/

section Texts

variable {word : String} {after : List Char}

theorem TypeName.Dotted.free {t : TypeName} (known : word ∈ clauseWords) (named : t.Dotted)
    (breaks : Breaks after) : Free word t.path after := by
  have dot : continuesName '.' = false := by
    decide
  have segments : ∀ (qs : List String), (∀ q ∈ qs, Spelled q) → ∀ after,
      Free word (qs.flatMap fun q => q.toList ++ ['.']) after := by
    intro qs
    induction qs with
    | nil =>
      intro _ after
      exact .blank known (by simp [Blank])
    | cons q qs ih =>
      intro spelled after
      obtain ⟨spelled, others⟩ := List.forall_mem_cons.mp spelled
      rw [List.flatMap_cons, List.append_assoc]
      refine .append (.name known spelled ?_ (.inr ?_)) (.cons known dot (ih others after))
      · simp [dot]
      · simp
        decide
  exact .append (segments _ named.qualifiers _)
    (.name known named.last.spelled breaks.endsName (.inl (named.last.plain word known)))

theorem Written.free {ts : List TypeName} {text : List Char} (known : word ∈ clauseWords)
    (written : Written ts text) (parted : Parted text after) : Free word text after := by
  have opened : dotted '<' = false ∧ continuesName '<' = false := by
    decide
  have closed : dotted '>' = false ∧ continuesName '>' = false := by
    decide
  have comma : dotted ',' = false ∧ continuesName ',' = false := by
    decide
  induction written generalizing after with
  | plain named _ => exact named.free known (named.breaks parted)
  | @generic t b₁ b₂ b₃ inner named blank₁ blank₂ blank₃ _ ih =>
    refine .append (.append (named.free known ?_) (.blank known blank₁)) (.cons known opened.2 ?_)
    · exact blank₁.breaks (breaks_cons opened.1 _)
    · refine .append (.append (.append (.blank known blank₂) (ih ?_)) (.blank known blank₃)) ?_
      · exact (blank₃.breaks (breaks_cons closed.1 _)).parted inner
      · exact .cons known closed.2 (.blank known (by simp [Blank]))
  | @more t ts text others b₁ b₂ _ blank₁ blank₂ rest ih ihs =>
    refine .append (.append (ih ?_) (.blank known blank₁)) (.cons known comma.2 ?_)
    · exact (blank₁.breaks (breaks_cons comma.1 _)).parted text
    · have shape : text ++ b₁ ++ ',' :: (b₂ ++ others) = text ++ b₁ ++ ',' :: b₂ ++ others := by
        simp
      exact .append (.blank known blank₂) (ihs (rest.parted_append (shape ▸ parted)))

theorem TypeParameter.Writes.free {p : TypeParameter} {text : List Char} (known : word ∈ clauseWords)
    (writes : p.Writes text) (breaks : Breaks after) (other : p.bound = none ∨ word ≠ "extends") :
    Free word text after := by
  cases writes with
  | unbounded named => exact .name known named.spelled breaks.endsName (.inl (named.plain word known))
  | @bounded name t b₁ b₂ text named blank₁ apart₁ blank₂ apart₂ written =>
    have different : word ≠ "extends" := other.resolve_left (by simp)
    have known' : "extends" ∈ clauseWords := List.mem_cons_self
    refine .append (.append (.append (.append ?_ (.blank known blank₁)) ?_) (.blank known blank₂))
      (written.free known (breaks.parted text))
    · exact .name known named.spelled (blank₁.breaks_of_ne_nil apart₁ _).endsName
        (.inl (named.plain word known))
    · exact .name known (spelled_word known') (blank₂.breaks_of_ne_nil apart₂ _).endsName
        (.inl (not_endsIn_word known known' different))

theorem WrittenParameters.free {ps : List TypeParameter} {text : List Char}
    (known : word ∈ clauseWords) (written : WrittenParameters ps text) (breaks : Breaks after)
    (other : (∀ p ∈ ps, p.bound = none) ∨ word ≠ "extends") : Free word text after := by
  have comma : dotted ',' = false ∧ continuesName ',' = false := by
    decide
  induction written with
  | single writes =>
    exact writes.free known breaks (other.imp_left fun all => all _ (List.mem_singleton_self _))
  | more writes blank₁ blank₂ _ ih =>
    refine .append (.append (writes.free known ?_ ?_) (.blank known blank₁))
      (.cons known comma.2 ?_)
    · exact blank₁.breaks (breaks_cons comma.1 _)
    · exact other.imp_left fun all => all _ List.mem_cons_self
    · exact .append (.blank known blank₂)
        (ih (other.imp_left fun all q member => all q (List.mem_cons_of_mem _ member)))

theorem ParameterList.free {ps : List TypeParameter} {text : List Char} (known : word ∈ clauseWords)
    (list : ParameterList ps text) (other : (∀ p ∈ ps, p.bound = none) ∨ word ≠ "extends") :
    Free word text after := by
  have opened : continuesName '<' = false := by
    decide
  have closed : dotted '>' = false ∧ continuesName '>' = false := by
    decide
  cases list with
  | absent => exact .blank known (by simp [Blank])
  | present blank₁ blank₂ blank₃ written =>
    refine .append (.blank known blank₁) (.cons known opened ?_)
    refine .append (.append (.append (.blank known blank₂) ?_) (.blank known blank₃)) ?_
    · exact written.free known (blank₃.breaks (breaks_cons closed.1 _)) other
    · exact .cons known closed.2 (.blank known (by simp [Blank]))

theorem Clause.free {other : String} {ts : List TypeName} {before text : List Char}
    (known : word ∈ clauseWords) (known' : other ∈ clauseWords) (different : word ≠ other)
    (clause : Clause other ts before text) (parted : Parted text after) : Free word text after := by
  cases clause with
  | absent => exact .blank known (by simp [Blank])
  | present blank₁ blank₂ apart _ written =>
    refine .append (.append (.append (.blank known blank₁) ?_) (.blank known blank₂))
      (written.free known (written.parted_append parted))
    exact .name known (spelled_word known') (blank₂.breaks_of_ne_nil apart _).endsName
      (.inl (not_endsIn_word known known' different))

end Texts

/-! ### Searches for a list -/

/-- A word, kept apart from what is before it, and what follows the blanks after it. -/
def clauseOf (word : String) (types : List Pattern) : Pattern :=
  sequence (wordEdge :: literal word :: blanks1 :: types)

/-- The types after `extends`, as far as they are read. -/
def extendedTypes : Pattern :=
  group 1 (seq typeReference (many (sequence [blanks, char ',', blanks, typeReference])))

/-- The list after `implements`. -/
def implementedTypes : Pattern :=
  group 1 (seq (one startsName) (few (one listed)))

/-- What ends a line with a list after `implements`. -/
def closing : Pattern :=
  sequence [blanks, Pattern.optional (char '\x7b'), blanks, textEnd]

theorem extendsClause_eq : extendsClause = clauseOf "extends" [extendedTypes] :=
  rfl

theorem implementsClause_eq : implementsClause =
    clauseOf "implements" [implementedTypes, blanks, Pattern.optional (char '\x7b'), blanks, textEnd] :=
  rfl

section Search

variable {word : String} {types : List Pattern} {here there : Place} {rest : List Char}

theorem wordSide_word (known : word ∈ clauseWords) : wordSide word.toList.head? = true := by
  have all : ∀ word ∈ clauseWords, wordSide word.toList.head? = true := by
    decide +kernel
  exact all word known

theorem head_word (known : word ∈ clauseWords) (rest : List Char) :
    (word.toList ++ rest).head? = word.toList.head? := by
  obtain ⟨c, others, letters, -, -⟩ := spelled_word known
  rw [letters]
  rfl

/-- Where its word does not occur, no list begins. -/
theorem fails_clause (known : word ∈ clauseWords) (no : ¬ Occurs word here.before here.rest) :
    Fails (clauseOf word types) here := by
  intro β next
  rw [clauseOf, run_sequence]
  simp only [run]
  split
  · next edge =>
    rw [run_sequence, run_literal]
    split
    · next start =>
      obtain ⟨rest, split⟩ := start
      have before : wordSide here.before = false := by
        simpa [← split, head_word known, wordSide_word known] using edge
      have there : (here.past word.toList).rest = rest := Place.past_rest split.symm
      have noBlank : Fails blanks1 (here.past word.toList) := by
        refine .seq (.one fun c first => ?_)
        rw [there] at first
        obtain ⟨more, rfl⟩ := List.head?_eq_some_iff.mp first
        by_contra blank
        exact no ⟨before, c, more, by simpa using blank, split.symm⟩
      exact noBlank.sequence types β next
    · rfl
  · rfl

theorem first_blanks1 {blank : List Char} (blanks : Blank blank) (nonempty : blank ≠ [])
    (split : here.rest = blank ++ rest)
    (ended : ∀ c, rest.head? = some c → Text.isBlank c = false) :
    First blanks1 here (here.past blank) := by
  cases blank with
  | nil => exact absurd rfl nonempty
  | cons c others =>
    rw [← List.singleton_append, ← Place.past_past]
    refine .seq (.one split (blanks c List.mem_cons_self)) (.characters ?_ ?_ ended)
    · exact Place.past_one_rest split
    · exact fun d member => blanks d (List.mem_cons_of_mem c member)

/-- Where its word stands, the list after it is read. -/
theorem first_clause {blank rest : List Char} (known : word ∈ clauseWords)
    (before : wordSide here.before = false) (split : here.rest = word.toList ++ (blank ++ rest))
    (blanks : Blank blank) (nonempty : blank ≠ [])
    (ended : ∀ c, rest.head? = some c → Text.isBlank c = false)
    (first : First (sequence types) (here.past (word.toList ++ blank)) there) :
    First (clauseOf word types) here there := by
  have edge : wordSide here.before ≠ wordSide here.rest.head? := by
    simp [before, split, head_word known, wordSide_word known]
  have afterWord : (here.past word.toList).rest = blank ++ rest := Place.past_rest split
  have gap := first_blanks1 blanks nonempty afterWord ended
  rw [Place.past_past] at gap
  exact .sequence (.wordEdge edge) (.sequence (.literal split) (.sequence gap first))

/-- A list whose word is nowhere has no types. -/
theorem clauseTypes_absent {tail : List Char} (known : word ∈ clauseWords)
    (free : Free word tail []) : clauseTypes (clauseOf word types) tail = [] := by
  have missing : (clauseOf word types).search tail = none := by
    have start : (Place.ofText tail).rest = tail := rfl
    rw [search, ← start]
    refine Fails.searchFrom fun t inside => fails_clause known ?_
    obtain ⟨u, rfl⟩ := inside
    intro occurs
    rw [Place.past_rest rfl] at occurs
    cases u with
    | nil =>
      obtain ⟨-, c, more, -, split⟩ := occurs
      simp at split
    | cons c u =>
      refine free t (c :: u) rfl (List.cons_ne_nil c u) none ?_
      simpa [Place.ofText] using occurs
  simp [clauseTypes, missing]

/-- The first reading of the types at a place collects some text. -/
structure Collects (types : List Pattern) (here : Place) (taken : List Char) : Prop where
  start : taken <+: here.rest
  first : ∃ there, First (sequence types) here there ∧
    there.groups = (1, ⟨here.offset, here.rest, here.offset + taken.length⟩) :: here.groups

/-- The first list whose word stands in a text gives its types. -/
theorem clauseTypes_present {before blank : List Char} {names : List String}
    (known : word ∈ clauseWords) (free : Free word before (word.toList ++ (blank ++ rest)))
    (apart : wordSide before.getLast? = false) (blanks : Blank blank) (nonempty : blank ≠ [])
    (ended : ∀ c, rest.head? = some c → Text.isBlank c = false)
    (collects : ∀ here : Place, here.rest = rest →
      ∃ taken, Collects types here taken ∧ typeNames taken = names) :
    clauseTypes (clauseOf word types) (before ++ (word.toList ++ (blank ++ rest))) = names := by
  let start := Place.ofText (before ++ (word.toList ++ (blank ++ rest)))
  have split : start.rest = before ++ (word.toList ++ (blank ++ rest)) := rfl
  have atWord := Place.past_rest split
  have atTypes : ((start.past before).past (word.toList ++ blank)).rest = rest :=
    Place.past_rest (by rw [atWord, List.append_assoc])
  obtain ⟨taken, ⟨⟨more, left⟩, there, first, groups⟩, rfl⟩ := collects _ atTypes
  have here : First (clauseOf word types) (start.past before) there := by
    refine first_clause known ?_ atWord blanks nonempty ended first
    simpa [start, Place.ofText] using apart
  have found : (clauseOf word types).search (before ++ (word.toList ++ (blank ++ rest))) =
      some ⟨(start.past before).offset, there⟩ := by
    rw [← here.searchFrom (word.toList ++ (blank ++ rest))]
    refine searchFrom_past split fun t inside short => fails_clause known ?_
    obtain ⟨u, rfl⟩ := inside
    have nonempty : u ≠ [] := by
      simpa using short
    have left : (start.past t).rest = u ++ (word.toList ++ (blank ++ rest)) :=
      Place.past_rest (by rw [split, List.append_assoc])
    rw [left]
    exact free t u rfl nonempty none
  have text : Match.text ⟨(start.past before).offset, there⟩ 1 = taken := by
    rw [← left] at groups
    exact Match.text_of_groups groups
  simp only [clauseTypes, found, text]

end Search

/-! ### The list after `implements` -/

section Implements

variable {here : Place} {b₁ b₂ : List Char}

theorem fails_closing {c : Char} (member : c ∈ here.rest) (notBlank : Text.isBlank c = false)
    (noBrace : c ≠ '\x7b') : Fails closing here := by
  refine .of_reads fun there reading => ?_
  have ended : there.rest = [] := by
    obtain ⟨_, _, reading⟩ := reading.sequence_cons
    obtain ⟨_, _, reading⟩ := reading.sequence_cons
    obtain ⟨_, _, reading⟩ := reading.sequence_cons
    cases reading with
    | textEnd ended => exact ended
  have within : Within (fun c => Text.isBlank c = true ∨ c = '\x7b') closing := by
    simp +contextual [closing, Pattern.sequence, Within, blanks, Pattern.optional, char]
  obtain ⟨taken, split, -, all⟩ := reading.taken within
  rw [split, ended, List.append_nil] at member
  simpa [notBlank, noBrace] using all c member

theorem first_closing (blank₁ : Blank b₁) (blank₂ : Blank b₂)
    (split : here.rest = b₁ ++ '\x7b' :: b₂) :
    First closing here (((here.past b₁).past ['\x7b']).past b₂) := by
  have atBrace : (here.past b₁).rest = '\x7b' :: b₂ := Place.past_rest split
  have inside : ((here.past b₁).past ['\x7b']).rest = b₂ ++ [] := by
    rw [Place.past_one_rest atBrace, List.append_nil]
  refine .seq (.characters split blank₁ ?_) (.seq (.altLeft (.one atBrace rfl))
    (.seq (.characters inside blank₂ (by simp)) (.textEnd (Place.past_rest inside))))
  intro c first
  obtain rfl : '\x7b' = c := by simpa using first
  decide

/-- The whole list is collected: before its end something is left that does not end the line. -/
theorem Written.collects_implemented {ts : List TypeName} {text : List Char}
    (written : Written ts text) (blank₁ : Blank b₁) (blank₂ : Blank b₂)
    (split : here.rest = text ++ (b₁ ++ '\x7b' :: b₂)) :
    Collects [implementedTypes, blanks, Pattern.optional (char '\x7b'), blanks, textEnd] here text := by
  refine ⟨split ▸ List.prefix_append _ _, ?_⟩
  obtain ⟨c, others, rfl, starts⟩ := written.starts
  have afterFirst : (here.past [c]).rest = others ++ (b₁ ++ '\x7b' :: b₂) :=
    Place.past_one_rest split
  have all : ∀ d ∈ others, listed d = true :=
    fun d member => written.all_listed d (List.mem_cons_of_mem c member)
  have ended : (Place.closing 1 here ((here.past [c]).past others)).rest = b₁ ++ '\x7b' :: b₂ :=
    Place.past_rest afterFirst
  refine ⟨(((Place.closing 1 here ((here.past [c]).past others)).past b₁).past ['\x7b']).past b₂,
    fun β next b found => ?_, ?_⟩
  · change (Pattern.one startsName).run here (fun mid => (few (one listed)).run mid fun there =>
      closing.run (Place.closing 1 here there) next) = some b
    refine First.one split starts β _ b (run_few afterFirst all (fun t inside short => ?_) ?_)
    · obtain ⟨u, rfl⟩ := inside
      obtain ⟨cs, d, last, character⟩ := written.ends
      have nonempty : u ≠ [] := by
        simpa using short
      have inEnd : d ∈ u := by
        have same := congrArg List.getLast? last
        rw [← List.cons_append, List.getLast?_append_of_ne_nil _ nonempty] at same
        exact List.mem_of_getLast? (by simpa using same)
      have left : ((here.past [c]).past t).rest = u ++ (b₁ ++ '\x7b' :: b₂) :=
        Place.past_rest (by rw [afterFirst, List.append_assoc])
      have inRest : d ∈ (Place.closing 1 here ((here.past [c]).past t)).rest := by
        change d ∈ ((here.past [c]).past t).rest
        rw [left]
        exact List.mem_append_left _ inEnd
      rcases character with inName | rfl
      · refine fails_closing inRest (isBlank_of_continuesName inName) ?_ β next
        rintro rfl
        revert inName
        decide
      · exact fails_closing inRest (by decide) (by decide) β next
    · exact first_closing blank₁ blank₂ ended β next b found
  · simp [Place.closing, Place.past, split]
    omega

end Implements

end CodeAtlas.Source
