import CodeAtlas.Source.Lexeme

/-!
Where a declaration ends. In scripts its block is bounded by braces, or the statement ends before
any brace opens; in Python it goes on as long as the lines are indented more deeply than its header.
-/

namespace CodeAtlas.Source

/-- What is open after reading part of a declaration. -/
structure Nesting where
  depth : Int
  parens : Int
  /-- Whether a brace has been opened at all. -/
  opened : Bool
  deriving Repr, DecidableEq

/-- Before the first character of a declaration nothing is open. -/
def Nesting.start : Nesting :=
  ⟨0, 0, false⟩

/-- Reads a line on; `none` where the declaration ends within it. -/
def Nesting.readLine : Nesting → List Char → Option Nesting
  | s, [] => some s
  | s, c :: rest =>
    if c = '(' then readLine { s with parens := s.parens + 1 } rest
    else if c = ')' then readLine { s with parens := s.parens - 1 } rest
    else if c = '\x7b' then readLine { s with depth := s.depth + 1, opened := true } rest
    else if c = '\x7d' then
      if s.opened && decide (s.depth - 1 ≤ 0) then none
      else readLine { s with depth := s.depth - 1 } rest
    else if c = ';' && !s.opened then none
    else readLine s rest

/-- The characters after which a statement goes on on the next line. -/
def continuesLine (line : List Char) : Bool :=
  match (Text.trimEnd line).getLast? with
  | some c => ['=', '(', ',', '>', '|', '&'].contains c
  | none => false

/-- The line on which a declaration ends that is still open after `last` lines of the text, whose
string literals are empty. -/
def braceEnd (s : Nesting) (last : Nat) : List (List Char) → Nat
  | [] => last
  | line :: rest =>
    match s.readLine line with
    | none => last + 1
    | some s =>
      if !s.opened && decide (s.parens ≤ 0) && !continuesLine line then last + 1
      else braceEnd s (last + 1) rest

/-- The end of the declaration that starts after `before` lines. -/
def bracedEnd (stripped : List (List Char)) (before : Nat) : Nat :=
  braceEnd Nesting.start before (stripped.drop before)

/-- How far a line is indented, in bytes. -/
def indentation (line : List Char) : Nat :=
  (line.takeWhile Text.isBlank).foldl (fun width c => width + c.utf8Size) 0

/-- The last line of an indented block that reaches at least to line `last`; `line` lines of the
text come before the ones that are left. Blank lines and comments neither end nor extend it. -/
def indentEnd (indent last line : Nat) : List (List Char) → Nat
  | [] => last
  | next :: rest =>
    match Text.trimStart next with
    | [] => indentEnd indent last (line + 1) rest
    | c :: _ =>
      if c = '#' then indentEnd indent last (line + 1) rest
      else if indentation next ≤ indent then last
      else indentEnd indent (line + 1) (line + 1) rest

/-- The end of the block whose header is the line after `before` lines. -/
def indentedEnd (lines : List (List Char)) (before indent : Nat) : Nat :=
  indentEnd indent (before + 1) (before + 1) (lines.drop (before + 1))

/-- An indented block ends no earlier than it is known to reach. -/
theorem le_indentEnd (indent last line : Nat) (lines : List (List Char)) (h : last ≤ line) :
    last ≤ indentEnd indent last line lines := by
  induction lines generalizing last line with
  | nil => exact Nat.le_refl _
  | cons next rest ih =>
    unfold indentEnd
    split
    · exact ih last (line + 1) (by omega)
    · split
      · exact ih last (line + 1) (by omega)
      · split
        · exact Nat.le_refl _
        · exact Nat.le_trans (by omega) (ih (line + 1) (line + 1) (Nat.le_refl _))

end CodeAtlas.Source
