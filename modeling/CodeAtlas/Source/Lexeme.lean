import CodeAtlas.Pattern.Basic
import CodeAtlas.Text.Numeric
import CodeAtlas.Text.Lines

/-!
What the languages have in common below the level of statements: names, string literals, and the
line on which a place in a text lies.
-/

namespace CodeAtlas.Source

open Pattern

/-- A character with which a name of a script begins. -/
def startsName (c : Char) : Bool :=
  c.isAlpha || c == '_' || c == '$'

/-- A character with which a name of a script goes on. -/
def continuesName (c : Char) : Bool :=
  Text.isWord c || c == '$'

/-- A name. -/
def name : Pattern :=
  seq (one startsName) (many (one continuesName))

/-- A string literal in any of three quotes; a backslash takes the next character with it. -/
def stringLiteral : Pattern :=
  oneOf (['"', '\'', '\u0060'].map fun quote =>
    sequence [char quote,
      many (alt (noneOf [quote, '\\']) (seq (char '\\') (noneOf ['\n']))), char quote])

/-- The line with every string literal emptied, so that what it quotes is not taken for code. -/
def withoutStrings (line : List Char) : List Char :=
  stringLiteral.replaceAll ['"', '"'] line

/-- Whether a text is a name: a letter, underscore or dollar sign, then such or numeric ones. -/
def isName : List Char → Bool
  | [] => false
  | c :: rest =>
    (Text.isAlphabetic c || c == '_' || c == '$') &&
      rest.all fun c => Text.isAlphanumeric c || c == '_' || c == '$'

/-- The line of the first character from a place on that is not blank. -/
def lineNumber (content : List Char) (offset : Nat) : Nat :=
  (content.take offset).count '\n' +
    ((content.drop offset).takeWhile Text.isBlank).count '\n' + 1

end CodeAtlas.Source
