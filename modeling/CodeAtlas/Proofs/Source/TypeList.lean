import CodeAtlas.Proofs.Source.Heading
import CodeAtlas.Proofs.Text.Blank

/-!
# Cutting a list of types into names

A list of types is cut at the commas outside angle brackets, and the arguments are dropped, however
deep they are nested: what is left of a whole list are the last segments of its types. Of a list that
breaks off inside the arguments of a type, that type is the last of which something is left.
-/

namespace CodeAtlas

namespace Source

open Script

/-! ### Cutting -/

section Cutting

variable {cs : List Char}

/-- A text without commas and brackets. -/
def Solid (cs : List Char) : Prop :=
  ∀ c ∈ cs, c ≠ '<' ∧ c ≠ '>' ∧ c ≠ ','

theorem Solid.append {cs' : List Char} (solid : Solid cs) (solid' : Solid cs') :
    Solid (cs ++ cs') :=
  fun c member => (List.mem_append.mp member).elim (solid c) (solid' c)

theorem Solid.no_open (solid : Solid cs) : '<' ∉ cs :=
  fun opens => (solid _ opens).1 rfl

theorem Solid.no_close (solid : Solid cs) : '>' ∉ cs :=
  fun closes => (solid _ closes).2.1 rfl

theorem Blank.solid (blank : Blank cs) : Solid cs := by
  intro c member
  have isBlank := blank c member
  refine ⟨?_, ?_, ?_⟩ <;> rintro rfl <;> revert isBlank <;> decide

theorem TypeName.Dotted.solid {t : TypeName} (named : t.Dotted) : Solid t.path := by
  intro c member
  have inPath := named.characters c member
  refine ⟨?_, ?_, ?_⟩ <;> rintro rfl <;> revert inPath <;> decide

theorem splitTypes_solid (solid : Solid cs) (current rest : List Char) :
    splitTypes 0 current (cs ++ rest) = splitTypes 0 (cs.reverse ++ current) rest := by
  induction cs generalizing current with
  | nil => rfl
  | cons c cs ih =>
    obtain ⟨opens, closes, cuts⟩ := solid c List.mem_cons_self
    have others : Solid cs := fun d member => solid d (List.mem_cons_of_mem c member)
    simp [splitTypes, opens, closes, cuts, ih others]

/-- Inside brackets everything is dropped up to the next one that closes. -/
theorem splitTypes_inside (closes : '>' ∉ cs) (depth : Nat) (current rest : List Char) :
    splitTypes (depth + 1) current (cs ++ rest) =
      splitTypes (depth + cs.count '<' + 1) current rest := by
  induction cs generalizing depth with
  | nil => rfl
  | cons c cs ih =>
    obtain ⟨other, inner⟩ := List.ne_and_not_mem_of_not_mem_cons closes
    by_cases opens : c = '<'
    · subst opens
      have deeper : depth + (cs.count '<' + 1) = depth + 1 + cs.count '<' := by
        omega
      rw [List.count_cons_self, deeper, ← ih inner (depth + 1)]
      simp [splitTypes]
    · rw [List.count_cons_of_ne (by simpa using opens), ← ih inner depth]
      simp [splitTypes, opens, Ne.symm other]

/-- Past the first bracket that closes as many are open as have been opened before it. -/
theorem splitTypes_brackets (closes : '>' ∉ cs) (depth : Nat) (current rest : List Char) :
    splitTypes depth current ('<' :: (cs ++ '>' :: rest)) =
      splitTypes (depth + cs.count '<') current rest := by
  rw [splitTypes, if_pos rfl, splitTypes_inside closes, splitTypes, if_neg (by decide), if_pos rfl,
    Nat.add_sub_cancel]

theorem splitTypes_solid_inside (solid : Solid cs) (depth : Nat) (current rest : List Char) :
    splitTypes (depth + 1) current (cs ++ rest) = splitTypes (depth + 1) current rest := by
  rw [splitTypes_inside solid.no_close, List.count_eq_zero_of_not_mem solid.no_open, Nat.add_zero]

/-- The arguments of a type are dropped as a whole. -/
theorem Written.splitTypes_inside {ts : List TypeName} {text : List Char} (written : Written ts text)
    (depth : Nat) (current rest : List Char) :
    splitTypes (depth + 1) current (text ++ rest) = splitTypes (depth + 1) current rest := by
  induction written generalizing depth rest with
  | plain named _ => exact splitTypes_solid_inside named.solid depth current rest
  | generic named blank₁ blank₂ blank₃ _ ih =>
    simp [splitTypes, splitTypes_solid_inside named.solid, splitTypes_solid_inside blank₁.solid,
      splitTypes_solid_inside blank₂.solid, ih, splitTypes_solid_inside blank₃.solid]
  | more _ blank₁ blank₂ _ ih ihs =>
    simp [splitTypes, ih, splitTypes_solid_inside blank₁.solid,
      splitTypes_solid_inside blank₂.solid, ihs]

/-- Of a type its name is left, perhaps with blanks after it. -/
theorem Written.splitTypes_single {t : TypeName} {text : List Char} (written : Written [t] text) :
    t.Dotted ∧ ∃ blank, Blank blank ∧ ∀ current rest, splitTypes 0 current (text ++ rest) =
      splitTypes 0 ((t.path ++ blank).reverse ++ current) rest := by
  cases written with
  | plain named _ =>
    refine ⟨named, [], by simp [Blank], fun current rest => ?_⟩
    rw [splitTypes_solid named.solid, List.append_nil]
  | @generic _ b₁ b₂ b₃ inner named blank₁ blank₂ blank₃ arguments =>
    refine ⟨named, b₁, blank₁, fun current rest => ?_⟩
    rw [List.append_assoc, splitTypes_solid (named.solid.append blank₁.solid)]
    simp [splitTypes, splitTypes_solid_inside blank₂.solid, arguments.splitTypes_inside,
      splitTypes_solid_inside blank₃.solid]
  | more _ _ _ none => cases none

end Cutting

/-! ### The names that are left -/

/-- The last segment of a piece of a list. -/
def lastSegment (piece : List Char) : String :=
  String.ofList (Text.trim (Text.afterLast '.' (Text.trim piece)))

/-- The last segments of the pieces that have one. -/
def lastSegments (pieces : List (List Char)) : List String :=
  (pieces.map lastSegment).filter (· ≠ "")

theorem typeNames_eq (list : List Char) : typeNames list = lastSegments (splitTypes 0 [] list) :=
  rfl

section Names

variable {t : TypeName} {b b' : List Char}

theorem TypeName.Dotted.afterLast (named : t.Dotted) : Text.afterLast '.' t.path = t.last.toList := by
  have noDot : ∀ c ∈ t.last.toList.reverse, decide (c ≠ '.') = true := by
    intro c member
    have inName := named.last.spelled.continues c (List.mem_reverse.mp member)
    rw [decide_eq_true_iff]
    rintro rfl
    revert inName
    decide
  have ended :
      ((t.qualifiers.flatMap fun q => q.toList ++ ['.']).reverse).takeWhile (· ≠ '.') = [] := by
    rcases List.eq_nil_or_concat t.qualifiers with none | ⟨qs, q, some⟩
    · simp [none]
    · simp [some]
  rw [Text.afterLast, path, List.reverse_append, List.takeWhile_append_of_pos noDot, ended,
    List.append_nil, List.reverse_reverse]

/-- What is left of a type is the last segment of its name. -/
theorem TypeName.Dotted.lastSegment (named : t.Dotted) (blank : Blank b) (blank' : Blank b') :
    lastSegment (b ++ t.path ++ b') = t.last := by
  have inPath : ∀ c ∈ t.path, Text.isBlank c = false := by
    exact fun c member => isBlank_of_dotted (named.characters c member)
  have inLast : ∀ c ∈ t.last.toList, Text.isBlank c = false :=
    fun c member => isBlank_of_continuesName (named.last.spelled.continues c member)
  have nonempty : t.path ≠ [] := by
    obtain ⟨c, rest, split, -⟩ := named.starts
    simp [split]
  have trimmed : Text.trim t.last.toList = t.last.toList := by
    have around : Text.trim ([] ++ t.last.toList ++ []) = t.last.toList :=
      Text.trim_blanks (by simp) (by simp) named.last.spelled.ne_nil inLast
    simpa using around
  rw [Source.lastSegment, Text.trim_blanks blank blank' nonempty inPath, named.afterLast, trimmed,
    String.ofList_toList]

theorem lastSegments_cons (named : t.Dotted) (blank : Blank b) (blank' : Blank b')
    (pieces : List (List Char)) :
    lastSegments ((b ++ t.path ++ b') :: pieces) = t.last :: lastSegments pieces := by
  have nonempty : t.last ≠ "" := by
    intro empty
    have none := named.last.spelled.ne_nil
    simp [empty] at none
  rw [lastSegments, List.map_cons, named.lastSegment blank blank',
    List.filter_cons_of_pos (by simpa using nonempty)]
  rfl

/-- At a comma after a type a new piece begins. -/
theorem Written.lastSegments_more {text b₁ b₂ : List Char} (written : Written [t] text)
    (blank : Blank b) (blank₁ : Blank b₁) (blank₂ : Blank b₂) (others : List Char) :
    lastSegments (splitTypes 0 b.reverse (text ++ b₁ ++ ',' :: (b₂ ++ others))) =
      t.last :: lastSegments (splitTypes 0 b₂.reverse others) := by
  obtain ⟨named, b', blank', cut⟩ := written.splitTypes_single
  have piece : splitTypes 0 b.reverse (text ++ b₁ ++ ',' :: (b₂ ++ others)) =
      (b ++ t.path ++ (b' ++ b₁)) :: splitTypes 0 b₂.reverse others := by
    rw [List.append_assoc, cut, splitTypes_solid blank₁.solid]
    simp [splitTypes, splitTypes_solid blank₂.solid]
  rw [piece, lastSegments_cons named blank (blank'.append blank₁)]

/-- What is left of a list of types are their last segments. -/
theorem Written.lastSegments {ts : List TypeName} {text : List Char} (written : Written ts text)
    (blank : Blank b) : lastSegments (splitTypes 0 b.reverse text) = ts.map (·.last) := by
  induction written using Written.along generalizing b with
  | @single t text written =>
    obtain ⟨named, b', blank', cut⟩ := written.splitTypes_single
    have piece := cut b.reverse []
    rw [List.append_nil] at piece
    rw [piece, splitTypes, List.reverse_append, List.reverse_reverse, List.reverse_reverse,
      ← List.append_assoc, lastSegments_cons named blank blank']
    rfl
  | more written blank₁ blank₂ _ ih =>
    rw [written.lastSegments_more blank blank₁ blank₂, ih blank₂, List.map_cons]

end Names

end Source

end CodeAtlas
