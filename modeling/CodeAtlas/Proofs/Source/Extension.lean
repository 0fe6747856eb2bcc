import CodeAtlas.Proofs.Source.Clause
import CodeAtlas.Proofs.Source.TypeList

/-!
# How far a list of extended types is read

The arguments of a type are read up to the first bracket that closes. Where an argument has arguments
itself, the bracket closes those, and what is read after it still lies inside the outer ones: of the
list, the first such type is the last that is found.
-/

namespace CodeAtlas.Source

open Pattern Script

/-- The types up to and including the first that is nested. -/
def throughNested : List TypeName → List TypeName
  | [] => []
  | t :: ts => if t.nested then [t] else t :: throughNested ts

/-! ### What comes after a type -/

/-- After blanks none of some characters comes. -/
def Refuses (refused after : List Char) : Prop :=
  ∀ c ∈ refused, (after.dropWhile Text.isBlank).head? ≠ some c

theorem Refuses.mono {refused refused' after : List Char} (refuses : Refuses refused' after)
    (fewer : refused ⊆ refused') : Refuses refused after :=
  fun c member => refuses c (fewer member)

theorem Blank.refuses {refused b : List Char} {c : Char} (blank : Blank b)
    (notBlank : Text.isBlank c = false) (other : c ∉ refused) (rest : List Char) :
    Refuses refused (b ++ c :: rest) := by
  intro d member
  rw [List.dropWhile_append_of_pos blank, List.dropWhile_cons_of_neg (by simp [notBlank])]
  intro same
  obtain rfl : c = d := by simpa using same
  exact other member

section Reading

variable {here there : Place} {t : TypeName} {ts : List TypeName} {text after : List Char}

/-- After blanks a character is not read if another one is there. -/
theorem fails_after_blanks {q : Pattern} {x : Char} (notBlank : Text.isBlank x = false)
    (other : (here.rest.dropWhile Text.isBlank).head? ≠ some x) :
    Fails (seq blanks (seq (char x) q)) here := by
  have split : here.rest = here.rest.takeWhile Text.isBlank ++ here.rest.dropWhile Text.isBlank :=
    List.takeWhile_append_dropWhile.symm
  refine .after_characters split (fun c first => ?_) fun s start => .seq (.one fun c first => ?_)
  · have stops := List.head?_dropWhile_not Text.isBlank here.rest
    simpa [first] using stops
  · obtain ⟨u, blank⟩ := start
    have left : (here.past s).rest = u ++ here.rest.dropWhile Text.isBlank :=
      Place.past_rest (by rw [← List.append_assoc, blank, ← split])
    rw [left] at first
    rw [beq_eq_false_iff_ne]
    rintro rfl
    cases u with
    | nil => exact other first
    | cons d u =>
      obtain rfl : d = c := by simpa using first
      have inBlank : d ∈ here.rest.takeWhile Text.isBlank := by
        simp [← blank]
      have isBlank := List.all_eq_true.mp List.all_takeWhile d inBlank
      simp [isBlank] at notBlank

theorem fails_arguments (refuses : Refuses ['<'] here.rest) : Fails (seq blanks angled) here :=
  fails_after_blanks (by decide) (refuses '<' (List.mem_singleton_self _))

/-- A further type, after a comma. -/
def furtherType : Pattern :=
  sequence [blanks, char ',', blanks, typeReference]

theorem fails_furtherType (refuses : Refuses [','] here.rest) : Fails furtherType here :=
  fails_after_blanks (by decide) (refuses ',' (List.mem_singleton_self _))

theorem first_angled {inner rest : List Char} (closes : '>' ∉ inner)
    (split : here.rest = '<' :: (inner ++ '>' :: rest)) :
    First angled here (here.past ('<' :: (inner ++ ['>']))) := by
  have inside : (here.past ['<']).rest = inner ++ '>' :: rest := Place.past_one_rest split
  have atEnd : ((here.past ['<']).past inner).rest = '>' :: rest := Place.past_rest inside
  have brackets : First angled here (((here.past ['<']).past inner).past ['>']) := by
    refine .seq (.one split rfl) (.seq (.characters inside (fun c member => ?_) ?_) (.one atEnd rfl))
    · have other : c ≠ '>' := by
        rintro rfl
        exact closes member
      simpa using other
    · simp
  simpa using brackets

/-- The name of a type is read, and then its arguments. -/
theorem first_named (named : t.Dotted) (split : here.rest = t.path ++ after)
    (breaks : Breaks after)
    (first : First (Pattern.optional (seq blanks angled)) (here.past t.path) there) :
    First typeReference here there := by
  obtain ⟨c, rest, path, starts⟩ := named.starts
  have characters := named.characters
  rw [path] at split first characters
  have more : (here.past [c]).rest = rest ++ after := Place.past_one_rest split
  refine .seq (.one split starts) (.seq (.characters more ?_ breaks) ?_)
  · exact fun d member => characters d (List.mem_cons_of_mem c member)
  · rw [Place.past_past]
    exact first

/-! ### Types without and with nested arguments -/

theorem Written.no_close (written : Written ts text) (flat : ∀ a ∈ ts, a.arguments = []) :
    '>' ∉ text := by
  induction written with
  | plain named _ => exact named.solid.no_close
  | generic _ _ _ _ arguments _ =>
    rw [flat _ (List.mem_singleton_self _)] at arguments
    cases arguments
  | more _ blank₁ blank₂ _ ih ihs =>
    obtain ⟨flat, others⟩ := List.forall_mem_cons.mp flat
    simp [ih (by simpa using flat), ihs others, blank₁.solid.no_close, blank₂.solid.no_close]

/-- If a type in a list has arguments, a bracket opens before the first one that closes. -/
theorem Written.first_close (written : Written ts text) (some : ∃ a ∈ ts, a.arguments ≠ []) :
    ∃ before after, text = before ++ '>' :: after ∧ '>' ∉ before ∧ '<' ∈ before := by
  induction written with
  | plain _ none =>
    obtain ⟨a, member, arguments⟩ := some
    obtain rfl := List.mem_singleton.mp member
    exact absurd none arguments
  | @generic t b₁ b₂ b₃ inner named blank₁ _ _ _ _ =>
    obtain ⟨before, after, split, noClose⟩ :=
      List.eq_append_cons_of_mem (show '>' ∈ b₂ ++ inner ++ b₃ ++ ['>'] by simp)
    refine ⟨t.path ++ b₁ ++ '<' :: before, after, by rw [split]; simp, fun closes => ?_, by simp⟩
    simp only [List.mem_append, List.mem_cons] at closes
    rcases closes with (inPath | inBlank) | bracket | inside
    · exact named.solid.no_close inPath
    · exact blank₁.solid.no_close inBlank
    · revert bracket
      decide
    · exact noClose inside
  | @more t ts text others b₁ b₂ written blank₁ blank₂ _ ih ihs =>
    by_cases arguments : t.arguments = []
    · obtain ⟨a, member, some⟩ := some
      have later : a ∈ ts := by
        rcases List.mem_cons.mp member with rfl | later
        · exact absurd arguments some
        · exact later
      obtain ⟨before, after, rfl, noClose, opens⟩ := ihs ⟨a, later, some⟩
      refine ⟨text ++ b₁ ++ ',' :: (b₂ ++ before), after, by simp, fun closes => ?_, by simp [opens]⟩
      simp only [List.mem_append, List.mem_cons] at closes
      rcases closes with (inType | inBlank) | comma | inBlank | inside
      · exact written.no_close (by simpa using arguments) inType
      · exact blank₁.solid.no_close inBlank
      · revert comma
        decide
      · exact blank₂.solid.no_close inBlank
      · exact noClose inside
    · obtain ⟨before, after, rfl, noClose, opens⟩ := ih ⟨t, List.mem_singleton_self t, arguments⟩
      exact ⟨before, after ++ b₁ ++ ',' :: (b₂ ++ others), by simp, noClose, opens⟩

/-- A type without nested arguments is read as a whole. -/
theorem Written.first_flat (written : Written [t] text) (flat : t.nested = false)
    (split : here.rest = text ++ after) (parted : Parted text after)
    (refuses : Refuses ['<'] after) : First typeReference here (here.past text) := by
  cases written with
  | plain named _ =>
    have left : (here.past t.path).rest = after := Place.past_rest split
    exact first_named named split (named.breaks parted)
      (.optional_none (fails_arguments (left ▸ refuses)))
  | @generic _ b₁ b₂ b₃ inner named blank₁ blank₂ blank₃ arguments =>
    have brackets : here.rest = t.path ++ (b₁ ++ '<' :: ((b₂ ++ inner ++ b₃) ++ '>' :: after)) := by
      simp [split]
    have afterName : (here.past t.path).rest = b₁ ++ '<' :: ((b₂ ++ inner ++ b₃) ++ '>' :: after) :=
      Place.past_rest brackets
    have atBracket := Place.past_rest afterName
    have noClose : '>' ∉ b₂ ++ inner ++ b₃ := by
      have inner := arguments.no_close (by simpa [TypeName.nested] using flat)
      simp [inner, blank₂.solid.no_close, blank₃.solid.no_close]
    have breaks : Breaks (b₁ ++ '<' :: ((b₂ ++ inner ++ b₃) ++ '>' :: after)) :=
      blank₁.breaks (breaks_cons (by decide) _)
    have first := first_named named brackets breaks (.altLeft
      (.seq (.characters afterName blank₁ (by simp; decide)) (first_angled noClose atBracket)))
    simpa using first
  | more _ _ _ none => cases none

/-- Of a type with nested arguments a part is read, after which brackets are still open. -/
theorem Written.first_nested (written : Written [t] text) (nested : t.nested = true)
    (split : here.rest = text ++ after) : ∃ taken left, text = taken ++ left ∧ taken ≠ [] ∧
      First typeReference here (here.past taken) ∧ ∃ blank depth, Blank blank ∧
        ∀ current rest, splitTypes 0 current (taken ++ rest) =
          splitTypes (depth + 1) ((t.path ++ blank).reverse ++ current) rest := by
  cases written with
  | plain _ none => simp [TypeName.nested, none] at nested
  | @generic _ b₁ b₂ b₃ inner named blank₁ blank₂ blank₃ arguments =>
    have some : ∃ a ∈ t.arguments, a.arguments ≠ [] := by
      simpa [TypeName.nested] using nested
    obtain ⟨before, rest, rfl, noClose, opens⟩ := arguments.first_close some
    have closes : '>' ∉ b₂ ++ before := by
      simp [blank₂.solid.no_close, noClose]
    have brackets : here.rest =
        t.path ++ (b₁ ++ '<' :: ((b₂ ++ before) ++ '>' :: (rest ++ b₃ ++ '>' :: after))) := by
      simp [split]
    have afterName := Place.past_rest brackets
    have atBracket := Place.past_rest afterName
    have breaks : Breaks (b₁ ++ '<' :: ((b₂ ++ before) ++ '>' :: (rest ++ b₃ ++ '>' :: after))) :=
      blank₁.breaks (breaks_cons (by decide) _)
    have first := first_named named brackets breaks (.altLeft
      (.seq (.characters afterName blank₁ (by simp; decide)) (first_angled closes atBracket)))
    refine ⟨t.path ++ b₁ ++ '<' :: (b₂ ++ before ++ ['>']), rest ++ b₃ ++ ['>'], by simp, by simp,
      by simpa using first, b₁, (b₂ ++ before).count '<' - 1, blank₁, fun current rest => ?_⟩
    have opened : (b₂ ++ before).count '<' - 1 + 1 = (b₂ ++ before).count '<' := by
      have positive : 0 < (b₂ ++ before).count '<' := List.count_pos_iff.mpr (by simp [opens])
      omega
    have shape : t.path ++ b₁ ++ '<' :: (b₂ ++ before ++ ['>']) ++ rest =
        t.path ++ b₁ ++ '<' :: ((b₂ ++ before) ++ '>' :: rest) := by
      simp
    rw [shape, splitTypes_solid (named.solid.append blank₁.solid), splitTypes_brackets closes,
      Nat.zero_add, opened]
  | more _ _ _ none => cases none

end Reading

/-! ### What is read inside brackets -/

/-- Inside brackets nothing is left of the text, and after it brackets are still open. -/
def Dropped (cs : List Char) : Prop :=
  ∀ depth current rest, ∃ depth', splitTypes (depth + 1) current (cs ++ rest) =
    splitTypes (depth' + 1) current rest

section Inside

variable {here there : Place} {cs cs' : List Char}

theorem Dropped.append (first : Dropped cs) (second : Dropped cs') : Dropped (cs ++ cs') := by
  intro depth current rest
  obtain ⟨mid, sameFirst⟩ := first depth current (cs' ++ rest)
  obtain ⟨depth', sameSecond⟩ := second mid current rest
  exact ⟨depth', by rw [List.append_assoc, sameFirst, sameSecond]⟩

theorem Dropped.flatten {parts : List (List Char)} (each : ∀ part ∈ parts, Dropped part) :
    Dropped parts.flatten := by
  induction parts with
  | nil => exact fun depth _ _ => ⟨depth, rfl⟩
  | cons part parts ih =>
    obtain ⟨first, others⟩ := List.forall_mem_cons.mp each
    exact first.append (ih others)

/-- A text in which no bracket closes. -/
theorem dropped_of_open (closes : '>' ∉ cs) : Dropped cs :=
  fun depth current rest => ⟨depth + cs.count '<', splitTypes_inside closes depth current rest⟩

theorem dropped_brackets (closes : '>' ∉ cs) : Dropped ('<' :: (cs ++ ['>'])) := by
  intro depth current rest
  have shape : '<' :: (cs ++ ['>']) ++ rest = '<' :: (cs ++ '>' :: rest) := by
    simp
  refine ⟨depth + cs.count '<', ?_⟩
  rw [shape, splitTypes_brackets closes, Nat.add_right_comm]

theorem reads_angled (reading : Reads angled here there) :
    ∃ inner, here.Takes there ('<' :: (inner ++ ['>'])) ∧ '>' ∉ inner := by
  obtain ⟨_, opens, reading⟩ := reading.sequence_cons
  obtain ⟨_, inside, closes⟩ := reading.sequence_cons
  obtain ⟨c, takesFirst, first⟩ := opens.one_takes
  obtain ⟨inner, takesInner, all⟩ := inside.characters_take
  obtain ⟨d, takesLast, last⟩ := closes.one_takes
  obtain rfl := eq_of_beq first
  obtain rfl := eq_of_beq last
  refine ⟨inner, (takesFirst.append (takesInner.append takesLast)), fun closes => ?_⟩
  simpa using all '>' closes

/-- Wherever a type is read, what is taken of it is dropped inside brackets. -/
theorem reads_typeReference (reading : Reads typeReference here there) :
    ∃ taken, here.Takes there taken ∧ taken ≠ [] ∧ Dropped taken := by
  obtain ⟨_, first, reading⟩ := reading.sequence_cons
  obtain ⟨mid, others, arguments⟩ := reading.sequence_cons
  obtain ⟨c, takesFirst, starts⟩ := first.one_takes
  obtain ⟨name, takesName, all⟩ := others.characters_take
  have takes := takesFirst.append takesName
  have droppedName : Dropped ([c] ++ name) := by
    refine dropped_of_open fun closes => ?_
    rcases List.mem_append.mp closes with atStart | inside
    · rw [← List.mem_singleton.mp atStart] at starts
      revert starts
      decide
    · have inName := all '>' inside
      revert inName
      decide
  have arguments : Reads (.alt (.seq blanks angled) .empty) mid there := arguments
  cases arguments with
  | altLeft reading =>
    cases reading with
    | seq gap brackets =>
      obtain ⟨blank, takesBlank, blanks⟩ := gap.characters_take
      obtain ⟨inner, takesInner, closes⟩ := reads_angled brackets
      refine ⟨_, takes.append (takesBlank.append takesInner), by simp, droppedName.append ?_⟩
      exact (dropped_of_open (Blank.solid blanks).no_close).append (dropped_brackets closes)
  | altRight reading =>
    cases reading with
    | empty => exact ⟨_, takes, by simp, droppedName⟩

theorem reads_furtherType (reading : Reads furtherType here there) :
    ∃ taken, here.Takes there taken ∧ taken ≠ [] ∧ Dropped taken := by
  obtain ⟨_, gap, reading⟩ := reading.sequence_cons
  obtain ⟨_, comma, reading⟩ := reading.sequence_cons
  obtain ⟨_, gap', reading⟩ := reading.sequence_cons
  obtain ⟨blank, takesBlank, blanks⟩ := gap.characters_take
  obtain ⟨c, takesComma, isComma⟩ := comma.one_takes
  obtain ⟨blank', takesBlank', blanks'⟩ := gap'.characters_take
  obtain ⟨name, takesName, _, dropped⟩ := reads_typeReference reading
  obtain rfl := eq_of_beq isComma
  refine ⟨_, (takesBlank.append (takesComma.append (takesBlank'.append takesName))), by simp, ?_⟩
  exact (dropped_of_open (Blank.solid blanks).no_close).append ((dropped_of_open (by decide)).append
    ((dropped_of_open (Blank.solid blanks').no_close).append dropped))

end Inside

/-! ### The list after `extends` -/

section List

variable {t : TypeName} {ts : List TypeName} {text after : List Char}

/-- From a place a list is read, first its first type and then the others, and of what is taken the
names of the list are left up to its first nested type. -/
structure ReadThrough (ts : List TypeName) (here : Place) (first others : List Char) : Prop where
  start : first ++ others <+: here.rest
  nonempty : first ≠ []
  single : First typeReference here (here.past first)
  rounds : Rounds furtherType (here.past first) others
  names : ∀ b, Blank b →
    lastSegments (splitTypes 0 b.reverse (first ++ others)) = (throughNested ts).map (·.last)

/-- The list ends where a type has nested arguments, whatever is after it. -/
theorem Written.read_nested {here : Place} (written : Written [t] text) (nested : t.nested = true)
    (split : here.rest = text ++ after) (others : List TypeName) :
    ∃ taken more, ReadThrough (t :: others) here taken more := by
  obtain ⟨taken, left, rfl, nonempty, first, b', depth, blank', cut⟩ :=
    written.first_nested nested split
  obtain ⟨parts, kinds, rounds, start⟩ := exists_rounds reads_furtherType (here.past taken)
  have left : (here.past taken).rest = left ++ after :=
    Place.past_rest (by rw [split, List.append_assoc])
  refine ⟨taken, parts.flatten, ?_, nonempty, first, rounds, fun b blank => ?_⟩
  · rw [left] at start
    rw [split, List.append_assoc, List.prefix_append_right_inj]
    exact start
  · obtain ⟨depth', dropped⟩ := Dropped.flatten kinds depth ((t.path ++ b').reverse ++ b.reverse) []
    have named := written.splitTypes_single.1
    rw [List.append_nil] at dropped
    rw [cut, dropped, splitTypes, List.reverse_append, List.reverse_reverse, List.reverse_reverse,
      ← List.append_assoc, lastSegments_cons named blank blank', throughNested, if_pos nested]
    rfl

/-- A type without nested arguments is read before the list that a comma puts behind it. -/
theorem ReadThrough.cons {here : Place} {b₁ b₂ left first more : List Char}
    (written : Written [t] text) (flat : t.nested = false) (blank₁ : Blank b₁) (blank₂ : Blank b₂)
    (starts : ∀ c, left.head? = some c → Text.isBlank c = false)
    (split : here.rest = text ++ (b₁ ++ ',' :: (b₂ ++ left)))
    (read : ReadThrough ts ((((here.past text).past b₁).past [',']).past b₂) first more) :
    ReadThrough (t :: ts) here text (b₁ ++ ',' :: (b₂ ++ first) ++ more) := by
  have atGap := Place.past_rest split
  have atComma := Place.past_rest atGap
  have pastComma := Place.past_one_rest atComma
  have parted : Parted text (b₁ ++ ',' :: (b₂ ++ left)) :=
    (blank₁.breaks (breaks_cons (by decide) _)).parted text
  have refuses : Refuses ['<'] (b₁ ++ ',' :: (b₂ ++ left)) :=
    blank₁.refuses (by decide) (by decide) _
  have further : First furtherType (here.past text)
      (((((here.past text).past b₁).past [',']).past b₂).past first) :=
    .seq (.characters atGap blank₁ (by simp; decide)) (.seq (.one atComma rfl)
      (.seq (.characters pastComma blank₂ starts) read.single))
  have place : ((((here.past text).past b₁).past [',']).past b₂).past first =
      (here.past text).past (b₁ ++ ',' :: (b₂ ++ first)) := by
    simp
  refine ⟨?_, written.ne_nil, written.first_flat flat split parted refuses,
    .more (by simp) (place ▸ further) (place ▸ read.rounds), fun b blank => ?_⟩
  · obtain ⟨u, same⟩ := read.start
    rw [Place.past_rest pastComma] at same
    exact ⟨u, by rw [split, ← same]; simp⟩
  · have shape : text ++ (b₁ ++ ',' :: (b₂ ++ first) ++ more) =
        text ++ b₁ ++ ',' :: (b₂ ++ (first ++ more)) := by
      simp
    rw [shape, written.lastSegments_more blank blank₁ blank₂, read.names b₂ blank₂, throughNested]
    simp [flat]

/-- A list is read up to its first nested type, and as a whole where there is none. -/
theorem Written.readThrough (written : Written ts text) {here : Place}
    (split : here.rest = text ++ after) (parted : Parted text after)
    (refuses : Refuses ['<', ','] after) : ∃ first others, ReadThrough ts here first others := by
  induction written using Written.along generalizing here with
  | @single t text written =>
    cases nested : t.nested with
    | true => exact written.read_nested nested split []
    | false =>
      have left : (here.past text).rest = after := Place.past_rest split
      refine ⟨text, [], by simp [split], written.ne_nil, ?_, .stop ?_, fun b blank => ?_⟩
      · exact written.first_flat nested split parted (refuses.mono (by simp))
      · exact fails_furtherType (left ▸ refuses.mono (by simp))
      · rw [List.append_nil, written.lastSegments blank, throughNested, throughNested]
        simp [nested]
  | @more t ts text others b₁ b₂ written blank₁ blank₂ rest ih =>
    have afterType : here.rest = text ++ (b₁ ++ ',' :: (b₂ ++ (others ++ after))) := by
      simp [split]
    cases nested : t.nested with
    | true => exact written.read_nested nested afterType ts
    | false =>
      have atComma := Place.past_rest (Place.past_rest afterType)
      have atOthers := Place.past_rest (Place.past_one_rest atComma)
      have shape : text ++ b₁ ++ ',' :: (b₂ ++ others) = text ++ b₁ ++ ',' :: b₂ ++ others := by
        simp
      have startsOther : ∀ c, (others ++ after).head? = some c → Text.isBlank c = false := by
        obtain ⟨c, more, rfl, starts⟩ := rest.starts
        intro d first
        obtain rfl : c = d := by simpa using first
        exact isBlank_of_continuesName (continuesName_of_startsName starts)
      obtain ⟨first, more, read⟩ := ih atOthers (rest.parted_append (shape ▸ parted))
      exact ⟨_, _, .cons written nested blank₁ blank₂ startsOther afterType read⟩

/-- What is found of a list after `extends`. -/
theorem Written.collects_extended (written : Written ts text) {here : Place}
    (split : here.rest = text ++ after) (parted : Parted text after)
    (refuses : Refuses ['<', ','] after) : ∃ taken, Collects [extendedTypes] here taken ∧
      typeNames taken = (throughNested ts).map (·.last) := by
  obtain ⟨first, others, read⟩ := written.readThrough split parted refuses
  obtain ⟨rest, left⟩ := read.start
  have atOthers : (here.past first).rest = others ++ rest :=
    Place.past_rest (by rw [← left, List.append_assoc])
  have types := (First.seq read.single (.many read.rounds atOthers)).group 1
  refine ⟨first ++ others, ⟨read.start, _, types, ?_⟩, ?_⟩
  · simp [Place.closing, Place.past, Nat.add_assoc]
  · simpa [typeNames_eq] using read.names [] (by simp [Blank])

end List

end CodeAtlas.Source
