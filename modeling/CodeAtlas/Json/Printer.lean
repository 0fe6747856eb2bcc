import CodeAtlas.Json.Basic
import CodeAtlas.Decimal.Shortest

/-!
JSON text from values, on one line and indented by two columns a level. Strings escape the quote,
the backslash and the control characters; floating-point numbers are written as the shortest decimal
that reads back.
-/

namespace CodeAtlas.Json

/-- The hexadecimal digit of a number below sixteen. -/
def hexDigit (n : Nat) : Char :=
  if n < 10 then Char.ofNat (48 + n) else Char.ofNat (87 + n)

/-- A character as it stands in a string. -/
def escaped (c : Char) : List Char :=
  if c = '"' then ['\\', '"']
  else if c = '\\' then ['\\', '\\']
  else if c.toNat = 8 then ['\\', 'b']
  else if c.toNat = 9 then ['\\', 't']
  else if c.toNat = 10 then ['\\', 'n']
  else if c.toNat = 12 then ['\\', 'f']
  else if c.toNat = 13 then ['\\', 'r']
  else if c.toNat < 32 then ['\\', 'u', '0', '0', hexDigit (c.toNat / 16), hexDigit (c.toNat % 16)]
  else [c]

/-- A string with its quotes. -/
def quoted (s : String) : String :=
  "\"" ++ String.ofList (s.toList.flatMap escaped) ++ "\""

mutual

/-- The text of a value on one line, without blanks. -/
def compact : Json → String
  | .null => "null"
  | .bool b => if b then "true" else "false"
  | .int n => toString n
  | .float x => Decimal.shortest x
  | .str s => quoted s
  | .arr items => "[" ++ compactItems items ++ "]"
  | .obj fields => "\x7b" ++ compactFields fields ++ "\x7d"
  | .hollow => "null"

/-- Items without blanks, between commas. -/
def compactItems : List Json → String
  | [] => ""
  | [j] => compact j
  | j :: k :: rest => compact j ++ "," ++ compactItems (k :: rest)

/-- Fields without blanks, between commas. -/
def compactFields : List (String × Json) → String
  | [] => ""
  | [(name, j)] => quoted name ++ ":" ++ compact j
  | (name, j) :: k :: rest => quoted name ++ ":" ++ compact j ++ "," ++ compactFields (k :: rest)

end

/-- A new line at a depth of nesting. -/
def newline (depth : Nat) : String :=
  "\n" ++ String.ofList (List.replicate (2 * depth) ' ')

mutual

/-- The text of a value over several lines; empty arrays and objects stay closed. -/
def indented (depth : Nat) : Json → String
  | .null => "null"
  | .bool b => if b then "true" else "false"
  | .int n => toString n
  | .float x => Decimal.shortest x
  | .str s => quoted s
  | .arr [] => "[]"
  | .arr (j :: rest) => "[" ++ indentedItems (depth + 1) (j :: rest) ++ newline depth ++ "]"
  | .obj [] => "\x7b\x7d"
  | .obj (f :: rest) => "\x7b" ++ indentedFields (depth + 1) (f :: rest) ++ newline depth ++ "\x7d"
  | .hollow => "null"

/-- Items, each on a line of its own. -/
def indentedItems (depth : Nat) : List Json → String
  | [] => ""
  | [j] => newline depth ++ indented depth j
  | j :: k :: rest => newline depth ++ indented depth j ++ "," ++ indentedItems depth (k :: rest)

/-- Fields, each on a line of its own. -/
def indentedFields (depth : Nat) : List (String × Json) → String
  | [] => ""
  | [(name, j)] => newline depth ++ quoted name ++ ": " ++ indented depth j
  | (name, j) :: k :: rest =>
    newline depth ++ quoted name ++ ": " ++ indented depth j ++ "," ++
      indentedFields depth (k :: rest)

end

/-- A value with two blanks for each level of nesting. -/
def pretty (j : Json) : String :=
  indented 0 j

/-- Puts a field that stands before all of `fields` at its place, if its name is not there yet. -/
def insertField (name : String) (j : Json) : List (String × Json) → List (String × Json)
  | [] => [(name, j)]
  | (other, k) :: rest =>
    if name < other then (name, j) :: (other, k) :: rest
    else if name = other then (other, k) :: rest
    else (other, k) :: insertField name j rest

mutual

/-- The value with the fields of every object sorted by name, the last of each name kept. -/
def sorted : Json → Json
  | .arr items => .arr (sortedItems items)
  | .obj fields => .obj (sortedFields fields)
  | .null => .null
  | .bool b => .bool b
  | .int n => .int n
  | .float x => .float x
  | .str s => .str s
  | .hollow => .hollow

/-- The items, each with its fields sorted. -/
def sortedItems : List Json → List Json
  | [] => []
  | j :: rest => sorted j :: sortedItems rest

/-- The fields in order of their names, where a later field of the same name wins. -/
def sortedFields : List (String × Json) → List (String × Json)
  | [] => []
  | (name, j) :: rest => insertField name (sorted j) (sortedFields rest)

end

end CodeAtlas.Json
