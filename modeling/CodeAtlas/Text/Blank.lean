/-!
Blank characters, and what is cut at them: trimming a text at either end, and its words. Lists of
characters are the working form; the strings of the rest of the library are trimmed through them.
-/

namespace CodeAtlas.Text

/-- Whether a character is white space. -/
def isBlank (c : Char) : Bool :=
  let n := c.toNat
  (9 ≤ n && n ≤ 13) || n == 32 || n == 0x85 || n == 0xA0 || n == 0x1680 ||
    (0x2000 ≤ n && n ≤ 0x200A) || n == 0x2028 || n == 0x2029 || n == 0x202F || n == 0x205F ||
    n == 0x3000

/-- The text without the blanks it starts with. -/
def trimStart (cs : List Char) : List Char :=
  cs.dropWhile isBlank

/-- The text without the blanks it ends with. -/
def trimEnd (cs : List Char) : List Char :=
  (cs.reverse.dropWhile isBlank).reverse

/-- The text without blanks at either end. -/
def trim (cs : List Char) : List Char :=
  trimEnd (trimStart cs)

/-- The pieces between the places where a separator stands, always at least one. -/
def splitAt (sep : Char) : List Char → List (List Char)
  | [] => [[]]
  | c :: rest =>
    if c = sep then [] :: splitAt sep rest
    else
      match splitAt sep rest with
      | piece :: pieces => (c :: piece) :: pieces
      | [] => [[c]]

/-- Cutting at a separator always leaves a first piece. -/
theorem splitAt_ne_nil (sep : Char) (cs : List Char) : splitAt sep cs ≠ [] := by
  fun_induction splitAt sep cs <;> simp

/-- Joining the pieces with the separator gives the text back. -/
theorem intercalate_splitAt (sep : Char) (cs : List Char) :
    [sep].intercalate (splitAt sep cs) = cs := by
  fun_induction splitAt sep cs with
  | case1 => rfl
  | case2 rest ih =>
    cases pieces : splitAt sep rest with
    | nil => exact absurd pieces (splitAt_ne_nil sep rest)
    | cons piece more => simpa [List.intercalate, pieces] using ih
  | case3 c rest _ piece more pieces ih =>
    cases more <;> simp_all [List.intercalate]
  | case4 c rest _ pieces => exact absurd pieces (splitAt_ne_nil sep rest)

/-- Adds a character to the word that is being read and closes it at a blank. -/
def wordsFrom (word : List Char) : List Char → List (List Char)
  | [] => if word.isEmpty then [] else [word.reverse]
  | c :: rest =>
    if isBlank c then
      if word.isEmpty then wordsFrom [] rest else word.reverse :: wordsFrom [] rest
    else wordsFrom (c :: word) rest

/-- The maximal runs of characters that are not blank. -/
def words (cs : List Char) : List (List Char) :=
  wordsFrom [] cs

/-- The piece after the last separator, the whole text where there is none. -/
def afterLast (sep : Char) (cs : List Char) : List Char :=
  (cs.reverse.takeWhile (· ≠ sep)).reverse

/-- What precedes the last separator, where there is one. -/
def beforeLast? (sep : Char) (cs : List Char) : Option (List Char) :=
  match cs.reverse.dropWhile (· ≠ sep) with
  | [] => none
  | _ :: before => some before.reverse

/-- What follows a given beginning, where the text has it. -/
def afterStart? : List Char → List Char → Option (List Char)
  | [], cs => some cs
  | _ :: _, [] => none
  | h :: head, c :: cs => if h = c then afterStart? head cs else none

/-- A text follows a beginning exactly if it is the beginning and then the rest. -/
theorem afterStart?_eq_some_iff {head cs rest : List Char} :
    afterStart? head cs = some rest ↔ cs = head ++ rest := by
  fun_induction afterStart? head cs <;> simp_all [eq_comm]

/-- What precedes and what follows the first place where a text holds a given piece. -/
def cutAt? (piece : List Char) : List Char → Option (List Char × List Char)
  | [] => if piece.isEmpty then some ([], []) else none
  | c :: rest =>
    match afterStart? piece (c :: rest) with
    | some after => some ([], after)
    | none => (cutAt? piece rest).map fun (before, after) => (c :: before, after)

end CodeAtlas.Text
