import CodeAtlas.Text.Case
import CodeAtlas.Text.Numeric

/-!
The words of a name. A word ends at any character that is neither a letter nor numeric, and before a
capital that follows a small letter or a digit, or that ends a run of capitals because a small
letter follows it. Words are in lower case.
-/

namespace CodeAtlas.Text

/-- Whether a capital with a given neighbour on either side begins a new word. -/
def startsWord (before : Char) (after : Option Char) : Bool :=
  isLowercase before || before.isDigit || (isUppercase before && after.any isLowercase)

/-- The word that has been read, if it has any character. -/
def closeWord (word : List Char) : List (List Char) :=
  if word.isEmpty then [] else [word.reverse]

/-- Reads words on; `word` is the one that is being read, in lower case and backwards, and `before`
the last character of the text. -/
def splitFrom (word : List Char) (before : Char) : List Char → List (List Char)
  | [] => closeWord word
  | c :: rest =>
    if !isAlphanumeric c then closeWord word ++ splitFrom [] c rest
    else if isUppercase c && !word.isEmpty && startsWord before rest.head? then
      word.reverse :: splitFrom (lowerChar c).reverse c rest
    else splitFrom ((lowerChar c).reverse ++ word) c rest

/-- The words of which a name is made. -/
def nameWords (name : String) : List String :=
  (splitFrom [] ' ' name.toList).map String.ofList

end CodeAtlas.Text
