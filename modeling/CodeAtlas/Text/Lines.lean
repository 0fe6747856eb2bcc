/-!
Lines of a text. A line ends at a line feed, which does not belong to it, nor does a carriage return
right before the line feed; a text that ends with a line feed has no further empty line.
-/

namespace CodeAtlas.Text

/-- The line without the carriage return that its line feed follows. -/
def dropReturn (line : List Char) : List Char :=
  match line.reverse with
  | '\r' :: before => before.reverse
  | _ => line

/-- The lines of a text whose first line has already been read up to `line`, kept backwards. -/
def linesFrom (line : List Char) : List Char → List (List Char)
  | [] => if line.isEmpty then [] else [line.reverse]
  | c :: rest =>
    if c = '\n' then dropReturn line.reverse :: linesFrom [] rest else linesFrom (c :: line) rest

/-- The lines of a text. -/
def lines (cs : List Char) : List (List Char) :=
  linesFrom [] cs

end CodeAtlas.Text
