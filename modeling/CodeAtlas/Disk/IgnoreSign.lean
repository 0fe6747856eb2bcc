/-!
The signs that the text of an ignore pattern consists of: stars, question marks, brackets with what
they hold, braces, commas and plain characters. Brackets that are never closed are no sign, and
neither are any later ones: from there on an opening bracket is a plain character. A backslash makes
any character a plain one.
-/

namespace CodeAtlas

/-- A sign of a pattern's text. -/
inductive IgnoreSign where
  /-- A character that stands for itself, and whether a backslash makes it so. -/
  | plain (c : Char) (escaped : Bool)
  | question
  | star
  | doubleStar
  /-- Brackets with ranges of members. -/
  | brackets (negated : Bool) (members : List (Char × Char))
  | opening
  | comma
  | closing
  deriving Repr, DecidableEq

namespace IgnoreSign

/-- What follows an opening bracket. -/
inductive Members where
  | closed (members : List (Char × Char)) (rest : List Char)
  | unclosed
  /-- A range that ends before it starts. -/
  | backwards
  deriving Repr, DecidableEq

/-- The members of brackets up to the closing one, which may itself be the first of them; `read`
holds the ranges so far, backwards, and `pending` tells whether a hyphen waits for the end of the
last one. -/
def readMembers (read : List (Char × Char)) (pending : Bool) : List Char → Members
  | [] => .unclosed
  | c :: rest =>
    match read with
    | [] => readMembers [(c, c)] false rest
    | (low, high) :: earlier =>
      if c = ']' then .closed (if pending then ('-', '-') :: read else read).reverse rest
      else if pending then
        if c < low then .backwards else readMembers ((low, c) :: earlier) false rest
      else if c = '-' then readMembers ((low, high) :: earlier) true rest
      else readMembers ((c, c) :: (low, high) :: earlier) false rest

/-- What follows brackets is shorter than what follows the opening one. -/
theorem length_of_closed {read : List (Char × Char)} {pending : Bool} {cs : List Char}
    {members : List (Char × Char)} {rest : List Char}
    (h : readMembers read pending cs = .closed members rest) : rest.length < cs.length := by
  fun_induction readMembers read pending cs
  case case1 | case4 => cases h
  case case3 =>
    cases h
    exact Nat.lt_succ_self _
  all_goals
    rename_i ih
    exact Nat.lt_succ_of_lt (ih h)

/-- The text behind an opening bracket without the mark that negates the brackets, and whether that
mark is there. -/
def dropNegation : List Char → Bool × List Char
  | '!' :: rest => (true, rest)
  | '^' :: rest => (true, rest)
  | cs => (false, cs)

/-- A text is not longer without the mark. -/
theorem length_dropNegation_le (cs : List Char) : (dropNegation cs).2.length ≤ cs.length := by
  unfold dropNegation
  split <;> simp

/-- The signs of a text; `counting` tells whether opening brackets count as such. There are none if
a range runs backwards or a backslash ends the text. -/
def ofText? (counting : Bool) : List Char → Option (List IgnoreSign)
  | [] => some []
  | c :: rest =>
    if c = '?' then (ofText? counting rest).map (question :: ·)
    else if c = '*' then
      match _h : rest with
      | '*' :: more => (ofText? counting more).map (doubleStar :: ·)
      | _ => (ofText? counting rest).map (star :: ·)
    else if c = '[' ∧ counting then
      match _h : readMembers [] false (dropNegation rest).2 with
      | .closed members after =>
        (ofText? counting after).map (brackets (dropNegation rest).1 members :: ·)
      | .unclosed => (ofText? false rest).map (plain c false :: ·)
      | .backwards => none
    else if c = '\x7b' then (ofText? counting rest).map (opening :: ·)
    else if c = '\x7d' then (ofText? counting rest).map (closing :: ·)
    else if c = ',' then (ofText? counting rest).map (comma :: ·)
    else if c = '\\' then
      match _h : rest with
      | [] => none
      | e :: more => (ofText? counting more).map (plain e true :: ·)
    else (ofText? counting rest).map (plain c false :: ·)
termination_by cs => cs.length
decreasing_by all_goals grind [→ length_of_closed, length_dropNegation_le]

/-- With a backslash before every character a text consists of plain characters only. -/
theorem ofText?_escaped (counting : Bool) (cs : List Char) :
    ofText? counting (cs.flatMap fun c => ['\\', c]) = some (cs.map (plain · true)) := by
  induction cs with
  | nil => rw [List.flatMap_nil, ofText?, List.map_nil]
  | cons c rest ih =>
    rw [List.flatMap_cons, List.cons_append, List.cons_append, List.nil_append]
    unfold ofText?
    simp [ih]

end IgnoreSign

end CodeAtlas
