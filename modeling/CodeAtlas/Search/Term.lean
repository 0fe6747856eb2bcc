import CodeAtlas.Text.Identifier

/-!
The terms of a text for searching: its words in lower case, except those of a single character.
-/

namespace CodeAtlas.Search

open Text

/-- Whether two neighbouring characters belong to one word, given what follows them. -/
def joined (a b : Char) (after : Option Char) : Bool :=
  isAlphanumeric a && isAlphanumeric b && !(isUppercase b && startsWord a after)

/-- The words of a text, as written. -/
def cut : List Char → List (List Char)
  | [] => []
  | c :: rest =>
    if !isAlphanumeric c then cut rest
    else
      match rest, cut rest with
      | d :: more, piece :: pieces =>
        if joined c d more.head? then (c :: piece) :: pieces else [c] :: piece :: pieces
      | _, pieces => [c] :: pieces

/-- The terms of a text: its words in lower case, those of one character left out. -/
def termsOf (text : String) : List String :=
  (((cut text.toList).map fun word => word.flatMap lowerChar).filter fun word =>
    1 < word.length).map String.ofList

end CodeAtlas.Search
