import CodeAtlas.Text.Blank
import Mathlib.Data.List.Basic
import Mathlib.Data.List.TakeWhile

/-!
# Blanks around a text

Blanks in front of a text that starts with another character are its leading blanks, and trimming
takes away them and no more. A word ends at the first blank.
-/

namespace CodeAtlas.Text

/-- The code points of the blanks. -/
def blankPoints : List Nat :=
  [9, 10, 11, 12, 13, 32, 0x85, 0xA0, 0x1680, 0x2000, 0x2001, 0x2002, 0x2003, 0x2004, 0x2005,
    0x2006, 0x2007, 0x2008, 0x2009, 0x200A, 0x2028, 0x2029, 0x202F, 0x205F, 0x3000]

/-- What holds of the listed code points holds of all blanks. -/
theorem forall_blank {P : Char → Prop} (listed : ∀ n ∈ blankPoints, P (Char.ofNat n)) {c : Char}
    (blank : isBlank c = true) : P c := by
  rw [← Char.ofNat_toNat c]
  apply listed
  simp only [isBlank, Bool.or_eq_true, Bool.and_eq_true, decide_eq_true_eq, beq_iff_eq] at blank
  simp only [blankPoints, List.mem_cons, List.not_mem_nil, or_false]
  omega

section

variable {blank cs : List Char} (all : ∀ c ∈ blank, isBlank c = true)
  (stops : ∀ c, cs.head? = some c → isBlank c = false)

include all stops

theorem trimStart_blanks : trimStart (blank ++ cs) = cs := by
  rw [trimStart, List.dropWhile_append_of_pos all]
  cases cs with
  | nil => rfl
  | cons c cs => exact List.dropWhile_cons_of_neg (by simp [stops c rfl])

theorem takeWhile_blanks : (blank ++ cs).takeWhile isBlank = blank := by
  rw [List.takeWhile_append_of_pos all]
  cases cs with
  | nil => exact List.append_nil blank
  | cons c cs => rw [List.takeWhile_cons_of_neg (by simp [stops c rfl]), List.append_nil]

end

/-! ### Trimming -/

/-- A text that neither starts nor ends with a blank. -/
structure Tight (cs : List Char) : Prop where
  nonempty : cs ≠ []
  starts : ∀ c, cs.head? = some c → isBlank c = false
  ends : ∀ c, cs.getLast? = some c → isBlank c = false

namespace Tight

variable {cs cs' : List Char}

theorem of_forall (nonempty : cs ≠ []) (none : ∀ c ∈ cs, isBlank c = false) : Tight cs where
  nonempty := nonempty
  starts c first := none c (List.mem_of_mem_head? first)
  ends c last := none c (List.mem_of_getLast? last)

theorem singleton {c : Char} (visible : isBlank c = false) : Tight [c] :=
  of_forall (List.cons_ne_nil c []) (by simpa using visible)

/-- Between two tight texts anything may stand. -/
theorem append (tight : Tight cs) (between : List Char) (tight' : Tight cs') :
    Tight (cs ++ between ++ cs') where
  nonempty := by simp [tight.nonempty]
  starts c first := by
    rw [List.append_assoc, List.head?_append_of_ne_nil _ tight.nonempty] at first
    exact tight.starts c first
  ends c last := by
    rw [List.getLast?_append_of_ne_nil _ tight'.nonempty] at last
    exact tight'.ends c last

/-- Blanks around a tight text are cut off. -/
theorem trim_around {blank blank' : List Char} (tight : Tight cs)
    (all : ∀ c ∈ blank, isBlank c = true) (all' : ∀ c ∈ blank', isBlank c = true) :
    trim (blank ++ cs ++ blank') = cs := by
  have atStart : trimStart (blank ++ (cs ++ blank')) = cs ++ blank' := by
    refine trimStart_blanks all fun c first => tight.starts c ?_
    rwa [List.head?_append_of_ne_nil _ tight.nonempty] at first
  have atEnd : trimStart (blank'.reverse ++ cs.reverse) = cs.reverse := by
    refine trimStart_blanks (by simpa using all') fun c last => tight.ends c ?_
    rwa [List.head?_reverse] at last
  rw [List.append_assoc, Text.trim, atStart, trimEnd, List.reverse_append]
  rw [trimStart] at atEnd
  rw [atEnd, List.reverse_reverse]

theorem trim (tight : Tight cs) : Text.trim cs = cs := by
  simpa using tight.trim_around (List.forall_mem_nil _) (List.forall_mem_nil _)

end Tight

/-- Blanks around a text without blanks are cut off. -/
theorem trim_blanks {blank blank' cs : List Char} (all : ∀ c ∈ blank, isBlank c = true)
    (all' : ∀ c ∈ blank', isBlank c = true) (nonempty : cs ≠ [])
    (none : ∀ c ∈ cs, isBlank c = false) : trim (blank ++ cs ++ blank') = cs :=
  (Tight.of_forall nonempty none).trim_around all all'

/-- Nothing is left of blanks alone. -/
theorem trim_of_blank {blank : List Char} (all : ∀ c ∈ blank, isBlank c = true) :
    trim blank = [] := by
  have nothing : trimStart blank = [] := List.dropWhile_eq_nil_iff.mpr all
  rw [trim, nothing]
  rfl

theorem wordsFrom_append {cs : List Char} (none : ∀ c ∈ cs, isBlank c = false)
    (word rest : List Char) : wordsFrom word (cs ++ rest) = wordsFrom (cs.reverse ++ word) rest := by
  induction cs generalizing word with
  | nil => rfl
  | cons c cs ih =>
    rw [List.cons_append, wordsFrom, none c List.mem_cons_self, if_neg Bool.false_ne_true,
      ih fun d member => none d (List.mem_cons_of_mem c member)]
    simp

/-- A text that starts without blanks has what stands before the first blank as its first word. -/
theorem head?_words {cs rest : List Char} (none : ∀ c ∈ cs, isBlank c = false) (nonempty : cs ≠ [])
    (stops : ∀ c, rest.head? = some c → isBlank c = true) :
    (words (cs ++ rest)).head? = some cs := by
  have opened : (cs.reverse ++ []).isEmpty = false := by simpa using nonempty
  rw [words, wordsFrom_append none]
  cases rest with
  | nil =>
    rw [wordsFrom, opened, if_neg Bool.false_ne_true]
    simp
  | cons c rest =>
    rw [wordsFrom, stops c rfl, if_pos rfl, opened, if_neg Bool.false_ne_true]
    simp

end CodeAtlas.Text
