import CodeAtlas.Proofs.Pattern.First
import CodeAtlas.Proofs.Text.Blank
import CodeAtlas.Source.Script

/-!
# Headings of types

The first line of a class or an interface: its name, its type parameters with their bounds, and the
types that it extends and implements, each a dotted name with arguments that may have arguments
themselves. A heading may be written with any blanks between its parts. The words that begin the lists
of supertypes stand in such a line only where the heading has them.
-/

namespace CodeAtlas.Source

open Pattern

/-! ### Characters -/

/-- Only blanks. -/
def Blank (cs : List Char) : Prop :=
  ∀ c ∈ cs, Text.isBlank c = true

instance (cs : List Char) : Decidable (Blank cs) :=
  decidable_of_iff (cs.all Text.isBlank = true) List.all_eq_true

/-- A character of a dotted name. -/
def dotted (c : Char) : Bool :=
  continuesName c || c == '.'

/-- No dotted name goes on with this text. -/
def Breaks (cs : List Char) : Prop :=
  ∀ c, cs.head? = some c → dotted c = false

/-- Where a text ends with a name, the name does not go on after it. -/
def Parted (text after : List Char) : Prop :=
  ∀ c, text.getLast? = some c → continuesName c = true → Breaks after

theorem isWord_of_isBlank {c : Char} (blank : Text.isBlank c = true) : Text.isWord c = false := by
  have listed : ∀ n ∈ Text.blankPoints, Text.isWord (Char.ofNat n) = false := by decide +kernel
  exact Text.forall_blank (P := fun c => Text.isWord c = false) listed blank

theorem continuesName_of_isBlank {c : Char} (blank : Text.isBlank c = true) :
    continuesName c = false := by
  have other : c ≠ '$' := by
    rintro rfl
    revert blank
    decide
  simp [continuesName, isWord_of_isBlank blank, other]

theorem dotted_of_isBlank {c : Char} (blank : Text.isBlank c = true) : dotted c = false := by
  have other : c ≠ '.' := by
    rintro rfl
    revert blank
    decide
  simp [dotted, continuesName_of_isBlank blank, other]

theorem isBlank_of_dotted {c : Char} (inName : dotted c = true) : Text.isBlank c = false := by
  by_contra blank
  simp [dotted_of_isBlank (by simpa using blank)] at inName

theorem dotted_of_continuesName {c : Char} (continues : continuesName c = true) :
    dotted c = true := by
  simp [dotted, continues]

theorem isBlank_of_continuesName {c : Char} (continues : continuesName c = true) :
    Text.isBlank c = false :=
  isBlank_of_dotted (dotted_of_continuesName continues)

theorem continuesName_of_startsName {c : Char} (starts : startsName c = true) :
    continuesName c = true := by
  simp only [startsName, Bool.or_eq_true, beq_iff_eq] at starts
  rcases starts with (alpha | rfl) | rfl
  · have ascii : c.val < 128 := by
      delta Char.isAlpha Char.isUpper Char.isLower at alpha
      grind
    simp [continuesName, Text.isWord, ascii, Char.isAlphanum, alpha]
  · decide
  · decide

theorem Blank.append {cs cs' : List Char} (blank : Blank cs) (blank' : Blank cs') :
    Blank (cs ++ cs') :=
  fun c member => (List.mem_append.mp member).elim (blank c) (blank' c)

theorem Blank.not_continues {cs : List Char} (blank : Blank cs) :
    ∀ c ∈ cs, continuesName c = false :=
  fun c member => continuesName_of_isBlank (blank c member)

theorem breaks_cons {c : Char} (ends : dotted c = false) (rest : List Char) :
    Breaks (c :: rest) := by
  intro d start
  obtain rfl : c = d := by simpa using start
  exact ends

theorem Breaks.endsName {after : List Char} (breaks : Breaks after) :
    ∀ c, after.head? = some c → continuesName c = false := by
  intro c first
  have ends := breaks c first
  simp only [dotted, Bool.or_eq_false_iff] at ends
  exact ends.1

theorem Breaks.parted {after : List Char} (breaks : Breaks after) (text : List Char) :
    Parted text after :=
  fun _ _ _ => breaks

/-- Blanks before it do not change that a text breaks names. -/
theorem Blank.breaks {cs after : List Char} (blank : Blank cs) (breaks : Breaks after) :
    Breaks (cs ++ after) := by
  cases cs with
  | nil => exact breaks
  | cons c cs => exact breaks_cons (dotted_of_isBlank (blank c List.mem_cons_self)) _

theorem Blank.breaks_of_ne_nil {cs : List Char} (blank : Blank cs) (nonempty : cs ≠ [])
    (after : List Char) : Breaks (cs ++ after) := by
  cases cs with
  | nil => exact absurd rfl nonempty
  | cons c cs => exact breaks_cons (dotted_of_isBlank (blank c List.mem_cons_self)) _

/-- After blanks no name before them goes on. -/
theorem Blank.keeps_apart {cs : List Char} (blank : Blank cs) (nonempty : cs ≠ [])
    (before : List Char) : ∀ c, (before ++ cs).getLast? = some c → continuesName c = false := by
  intro c last
  rw [List.getLast?_append_of_ne_nil _ nonempty] at last
  exact blank.not_continues c (List.mem_of_getLast? last)

/-! ### Names and types -/

/-- The words that begin lists of supertypes. -/
def clauseWords : List String :=
  ["extends", "implements"]

/-- A text that is read as a name. -/
def Spelled (name : String) : Prop :=
  ∃ c rest, name.toList = c :: rest ∧ startsName c = true ∧ ∀ d ∈ rest, continuesName d = true

instance (name : String) : Decidable (Spelled name) :=
  match split : name.toList with
  | [] => isFalse fun ⟨_, _, same, _⟩ => by simp [split] at same
  | c :: rest =>
    decidable_of_iff (startsName c = true ∧ rest.all continuesName = true) (by
      rw [List.all_eq_true]
      refine ⟨fun ⟨starts, others⟩ => ⟨c, rest, split, starts, others⟩, ?_⟩
      intro ⟨_, _, same, starts, others⟩
      obtain ⟨rfl, rfl⟩ := List.cons.inj (split.symm.trans same)
      exact ⟨starts, others⟩)

theorem Spelled.continues {name : String} (spelled : Spelled name) :
    ∀ c ∈ name.toList, continuesName c = true := by
  obtain ⟨c, rest, split, starts, others⟩ := spelled
  intro d member
  rw [split] at member
  rcases List.mem_cons.mp member with rfl | later
  · exact continuesName_of_startsName starts
  · exact others d later

theorem Spelled.ne_nil {name : String} (spelled : Spelled name) : name.toList ≠ [] := by
  obtain ⟨c, rest, split, -⟩ := spelled
  simp [split]

theorem Spelled.starts_notBlank {name : String} (spelled : Spelled name) (after : List Char) :
    ∀ c, (name.toList ++ after).head? = some c → Text.isBlank c = false := by
  obtain ⟨c, rest, split, starts, -⟩ := spelled
  intro d first
  obtain rfl : c = d := by simpa [split] using first
  exact isBlank_of_continuesName (continuesName_of_startsName starts)

/-- A word is a name, or follows a dollar sign at its end. -/
def EndsIn (word name : String) : Prop :=
  word = name ∨ '$' :: word.toList <:+ name.toList

instance (word name : String) : Decidable (EndsIn word name) :=
  inferInstanceAs (Decidable (_ ∨ _))

/-- A name that is not, and does not end in, one of the words that begin lists of supertypes. A dollar
sign is no word character, so what follows one could be taken for such a word. -/
structure Named (name : String) : Prop where
  spelled : Spelled name
  plain : ∀ word ∈ clauseWords, ¬ EndsIn word name

instance (name : String) : Decidable (Named name) :=
  decidable_of_iff (Spelled name ∧ ∀ word ∈ clauseWords, ¬ EndsIn word name)
    ⟨fun ⟨spelled, plain⟩ => ⟨spelled, plain⟩, fun named => ⟨named.spelled, named.plain⟩⟩

/-- A type as it is named: a dotted name and, in angle brackets, its arguments. -/
structure TypeName where
  qualifiers : List String
  last : String
  arguments : List TypeName

namespace TypeName

/-- A type that is named without qualifiers or arguments. -/
def ofName (name : String) : TypeName :=
  ⟨[], name, []⟩

/-- The dotted name. -/
def path (t : TypeName) : List Char :=
  (t.qualifiers.flatMap fun q => q.toList ++ ['.']) ++ t.last.toList

/-- The segments of the name are names. -/
structure Dotted (t : TypeName) : Prop where
  qualifiers : ∀ q ∈ t.qualifiers, Spelled q
  last : Named t.last

/-- Whether some argument has arguments itself. -/
def nested (t : TypeName) : Bool :=
  t.arguments.any fun a => !a.arguments.isEmpty

end TypeName

/-- A text lists some types, one at least, with commas between them. -/
inductive Written : List TypeName → List Char → Prop where
  | plain {t : TypeName} : t.Dotted → t.arguments = [] → Written [t] t.path
  | generic {t : TypeName} {b₁ b₂ b₃ inner : List Char} : t.Dotted → Blank b₁ → Blank b₂ →
      Blank b₃ → Written t.arguments inner →
      Written [t] (t.path ++ b₁ ++ '<' :: (b₂ ++ inner ++ b₃ ++ ['>']))
  | more {t : TypeName} {ts : List TypeName} {text others b₁ b₂ : List Char} : Written [t] text →
      Blank b₁ → Blank b₂ → Written ts others →
      Written (t :: ts) (text ++ b₁ ++ ',' :: (b₂ ++ others))

section Types

variable {t : TypeName} {ts : List TypeName} {text : List Char}

theorem TypeName.Dotted.starts (named : t.Dotted) :
    ∃ c rest, t.path = c :: rest ∧ startsName c = true := by
  unfold path
  cases segments : t.qualifiers with
  | nil =>
    obtain ⟨c, rest, split, starts, -⟩ := named.last.spelled
    exact ⟨c, rest, by simpa using split, starts⟩
  | cons q qs =>
    obtain ⟨c, rest, split, starts, -⟩ := named.qualifiers q (by simp [segments])
    exact ⟨c, _, by rw [List.flatMap_cons, split]; rfl, starts⟩

theorem TypeName.Dotted.characters (named : t.Dotted) : ∀ c ∈ t.path, dotted c = true := by
  intro c member
  rw [path, List.mem_append, List.mem_flatMap] at member
  rcases member with ⟨q, qualifier, inSegment⟩ | inLast
  · rcases List.mem_append.mp inSegment with inName | dot
    · exact dotted_of_continuesName ((named.qualifiers q qualifier).continues c inName)
    · rw [List.mem_singleton.mp dot]
      decide
  · exact dotted_of_continuesName (named.last.spelled.continues c inLast)

theorem Named.written {name : String} (named : Named name) :
    Written [.ofName name] name.toList := by
  have path : (TypeName.ofName name).Dotted := ⟨by simp [TypeName.ofName], named⟩
  exact .plain path rfl

/-- A dotted name ends with a character of its last segment. -/
theorem TypeName.Dotted.ends (named : t.Dotted) :
    ∃ cs c, t.path = cs ++ [c] ∧ continuesName c = true := by
  obtain ⟨c, rest, split, -, -⟩ := named.last.spelled
  have nonempty : t.last.toList ≠ [] := by
    simp [split]
  refine ⟨(t.qualifiers.flatMap fun q => q.toList ++ ['.']) ++ t.last.toList.dropLast,
    t.last.toList.getLast nonempty, ?_, ?_⟩
  · rw [path, List.append_assoc, List.dropLast_concat_getLast nonempty]
  · exact named.last.spelled.continues _ (List.getLast_mem nonempty)

theorem TypeName.Dotted.breaks {after : List Char} (named : t.Dotted) (parted : Parted t.path after) :
    Breaks after := by
  obtain ⟨cs, c, split, continues⟩ := named.ends
  exact parted c (by simp [split]) continues

/-- Along a list of types, whatever the arguments of each are. -/
@[elab_as_elim]
theorem Written.along {motive : (ts : List TypeName) → (text : List Char) → Written ts text → Prop}
    (single : ∀ {t text} (written : Written [t] text), motive [t] text written)
    (more : ∀ {t ts text others b₁ b₂} (written : Written [t] text) (blank₁ : Blank b₁)
      (blank₂ : Blank b₂) (rest : Written ts others), motive ts others rest →
      motive (t :: ts) (text ++ b₁ ++ ',' :: (b₂ ++ others)) (.more written blank₁ blank₂ rest))
    (written : Written ts text) : motive ts text written := by
  induction written with
  | plain named none => exact single (.plain named none)
  | generic named blank₁ blank₂ blank₃ arguments _ =>
    exact single (.generic named blank₁ blank₂ blank₃ arguments)
  | more written blank₁ blank₂ rest _ ih => exact more written blank₁ blank₂ rest ih

/-- A list of types begins with the first character of a name. -/
theorem Written.starts (written : Written ts text) :
    ∃ c rest, text = c :: rest ∧ startsName c = true := by
  induction written with
  | plain named _ => exact named.starts
  | generic named _ _ _ _ _ =>
    obtain ⟨c, rest, split, starts⟩ := named.starts
    exact ⟨c, _, by rw [split]; rfl, starts⟩
  | more _ _ _ _ ih _ =>
    obtain ⟨c, rest, split, starts⟩ := ih
    exact ⟨c, _, by rw [split]; rfl, starts⟩

/-- It ends with a name's last character, or closes the arguments of a type. -/
theorem Written.ends (written : Written ts text) :
    ∃ cs c, text = cs ++ [c] ∧ (continuesName c = true ∨ c = '>') := by
  induction written with
  | plain named _ =>
    obtain ⟨cs, c, split, continues⟩ := named.ends
    exact ⟨cs, c, split, .inl continues⟩
  | @generic t b₁ b₂ b₃ inner =>
    exact ⟨t.path ++ b₁ ++ '<' :: (b₂ ++ inner ++ b₃), '>', by simp, .inr rfl⟩
  | @more t ts text others b₁ b₂ _ _ _ _ _ ih =>
    obtain ⟨cs, c, split, last⟩ := ih
    exact ⟨text ++ b₁ ++ ',' :: (b₂ ++ cs), c, by simp [split], last⟩

/-- A character that may stand in a list of types. -/
def listed (c : Char) : Bool :=
  continuesName c || c == '.' || c == ',' || Text.isBlank c || c == '<' || c == '>'

theorem Written.ne_nil (written : Written ts text) : text ≠ [] := by
  obtain ⟨c, rest, split, -⟩ := written.starts
  simp [split]

/-- The last type of a list is parted from what follows the list. -/
theorem Written.parted_append {others after : List Char} (written : Written ts others)
    (parted : Parted (text ++ others) after) : Parted others after := by
  intro c last
  refine parted c ?_
  rw [List.getLast?_append_of_ne_nil _ written.ne_nil]
  exact last

theorem Blank.all_listed {cs : List Char} (blank : Blank cs) : ∀ c ∈ cs, listed c = true := by
  intro c member
  simp [listed, blank c member]

theorem Written.all_listed (written : Written ts text) : ∀ c ∈ text, listed c = true := by
  have pathListed {t : TypeName} (named : t.Dotted) : ∀ c ∈ t.path, listed c = true := by
    intro c member
    have inPath := named.characters c member
    rw [dotted] at inPath
    simp only [listed, inPath, Bool.true_or]
  have bracket : listed '<' = true ∧ listed '>' = true ∧ listed ',' = true := by
    decide
  induction written with
  | plain named _ => exact pathListed named
  | generic named blank₁ blank₂ blank₃ _ ih =>
    simp only [List.forall_mem_append, List.forall_mem_cons]
    refine ⟨⟨pathListed named, blank₁.all_listed⟩, bracket.1,
      ⟨⟨blank₂.all_listed, ih⟩, blank₃.all_listed⟩, ?_⟩
    simpa using bracket.2.1
  | more _ blank₁ blank₂ _ ih ihs =>
    simp only [List.forall_mem_append, List.forall_mem_cons]
    exact ⟨⟨ih, blank₁.all_listed⟩, bracket.2.2, blank₂.all_listed, ihs⟩

end Types

/-- A type parameter, which may be bounded by a type. -/
structure TypeParameter where
  name : String
  bound : Option TypeName

/-- A text is a type parameter. -/
inductive TypeParameter.Writes : TypeParameter → List Char → Prop where
  | unbounded {name : String} : Named name → Writes ⟨name, none⟩ name.toList
  | bounded {name : String} {t : TypeName} {b₁ b₂ text : List Char} : Named name → Blank b₁ →
      b₁ ≠ [] → Blank b₂ → b₂ ≠ [] → Written [t] text →
      Writes ⟨name, some t⟩ (name.toList ++ b₁ ++ "extends".toList ++ b₂ ++ text)

/-- A text lists some type parameters, one at least. -/
inductive WrittenParameters : List TypeParameter → List Char → Prop where
  | single {p : TypeParameter} {text : List Char} : p.Writes text → WrittenParameters [p] text
  | more {p : TypeParameter} {ps : List TypeParameter} {text others b₁ b₂ : List Char} :
      p.Writes text → Blank b₁ → Blank b₂ → WrittenParameters ps others →
      WrittenParameters (p :: ps) (text ++ b₁ ++ ',' :: (b₂ ++ others))

/-- A text gives the type parameters in angle brackets, where there are any. -/
inductive ParameterList : List TypeParameter → List Char → Prop where
  | absent : ParameterList [] []
  | present {ps : List TypeParameter} {b₁ b₂ b₃ text : List Char} : Blank b₁ → Blank b₂ → Blank b₃ →
      WrittenParameters ps text → ParameterList ps (b₁ ++ '<' :: (b₂ ++ text ++ b₃ ++ ['>']))

/-- After some text follows a list of supertypes behind its word, where there are any. The word is kept
apart from a name before it. -/
inductive Clause (word : String) : List TypeName → List Char → List Char → Prop where
  | absent {before : List Char} : Clause word [] before []
  | present {ts : List TypeName} {before b₁ b₂ text : List Char} : Blank b₁ → Blank b₂ → b₂ ≠ [] →
      (∀ c, (before ++ b₁).getLast? = some c → continuesName c = false) → Written ts text →
      Clause word ts before (b₁ ++ word.toList ++ b₂ ++ text)

/-- What the first line of a class or an interface says. -/
structure Heading where
  kind : NodeKind
  name : String
  parameters : List TypeParameter
  extended : List TypeName
  implemented : List TypeName

namespace Heading

/-- What follows the name, up to the end of the line. -/
inductive Continues (h : Heading) : List Char → Prop where
  | tail {ps ext impl b₁ b₂ : List Char} : ParameterList h.parameters ps →
      Clause "extends" h.extended (h.name.toList ++ ps) ext →
      Clause "implements" h.implemented (h.name.toList ++ ps ++ ext) impl → Blank b₁ → Blank b₂ →
      Continues h (ps ++ ext ++ impl ++ b₁ ++ '\x7b' :: b₂)

/-- A line has the heading of a class, or of an interface that implements nothing. -/
inductive Heads (h : Heading) : List Char → Prop where
  | line {b₁ b₂ tail : List Char} :
      h.kind = .classType ∨ h.kind = .interfaceType ∧ h.implemented = [] →
      Blank b₁ → Blank b₂ → b₂ ≠ [] → Spelled h.name → h.Continues tail →
      Heads h (b₁ ++ h.kind.name.toList ++ b₂ ++ h.name.toList ++ tail)

end Heading

end CodeAtlas.Source
