import CodeAtlas.Toml.Lexeme

/-!
TOML documents from text: values with the arrays and tables in them, and the lines of a document.
-/

namespace CodeAtlas.Toml

mutual

/-- A value that starts at the first character; `depth` more levels may be opened. -/
def readValue : Nat → Nat → List Char → Option (Toml × List Char)
  | 0, _, _ => none
  | _ + 1, _, [] => none
  | fuel + 1, depth, c :: rest =>
    if c = '"' ∨ c = '\'' then (readString (c :: rest)).map fun (s, rest) => (str s, rest)
    else if c = '[' then
      match depth with
      | 0 => none
      | depth + 1 => readItems fuel depth [] rest
    else if c = '\x7b' then
      match depth with
      | 0 => none
      | depth + 1 =>
        match skipBlanks rest with
        | '\x7d' :: rest => some (table .closed [], rest)
        | rest => readFields fuel depth [] rest
    else if c = 't' then
      if rest.take 3 = ['r', 'u', 'e'] then some (bool true, rest.drop 3) else none
    else if c = 'f' then
      if rest.take 4 = ['a', 'l', 's', 'e'] then some (bool false, rest.drop 4) else none
    else readMomentOrNumber (c :: rest)

/-- The items of an array from the next one on; `read` holds the earlier ones, backwards. -/
def readItems : Nat → Nat → List Toml → List Char → Option (Toml × List Char)
  | 0, _, _, _ => none
  | fuel + 1, depth, read, cs =>
    match skipFiller cs.length cs with
    | ']' :: rest => some (array read.reverse, rest)
    | cs =>
      match readValue fuel depth cs with
      | none => none
      | some (v, rest) =>
        match skipFiller rest.length rest with
        | ',' :: rest => readItems fuel depth (v :: read) rest
        | ']' :: rest => some (array (v :: read).reverse, rest)
        | _ => none

/-- The fields of a table between braces from the next one on. -/
def readFields : Nat → Nat → Fields → List Char → Option (Toml × List Char)
  | 0, _, _, _ => none
  | fuel + 1, depth, fields, cs =>
    match readKey cs with
    | some ((path, key), '=' :: rest) =>
      match readValue fuel depth (skipBlanks rest) with
      | none => none
      | some (v, rest) =>
        match insert path key v fields with
        | none => none
        | some fields =>
          match skipBlanks rest with
          | ',' :: rest => readFields fuel depth fields rest
          | '\x7d' :: rest => some (table .closed fields, rest)
          | _ => none
    | _ => none

end

/-- A key with its value, up to the end of the line. -/
def readAssignment (d : Document) (cs : List Char) : Option (Document × List Char) :=
  match readKey cs with
  | some ((path, key), '=' :: rest) =>
    match readValue (rest.length + 1) (nestingLimit - 1) (skipBlanks rest) with
    | some (v, rest) => do
      let rest ← endLine? rest
      let d ← d.assign path key v
      some (d, rest)
    | none => none
  | _ => none

/-- A header after its first bracket, up to the end of the line. -/
def readHeader (d : Document) (cs : List Char) : Option (Document × List Char) :=
  let (element, cs) :=
    match cs with
    | '[' :: rest => (true, rest)
    | _ => (false, cs)
  match readKey cs with
  | some ((path, key), rest) => do
    let rest ← after? ']' rest
    let rest ← if element then after? ']' rest else some rest
    let rest ← endLine? rest
    let d ← d.openHeader element path key
    some (d, rest)
  | none => none

/-- The lines of a document from the next one on. -/
def readLines : Nat → Document → List Char → Option Document
  | 0, _, _ => none
  | fuel + 1, d, cs =>
    match skipBlanks cs with
    | [] => some d
    | c :: rest =>
      if c = '#' ∨ c = '\n' ∨ c = '\r' then (endLine? (c :: rest)).bind (readLines fuel d)
      else
        (if c = '[' then readHeader d rest else readAssignment d (c :: rest)).bind
          fun (d, rest) => readLines fuel d rest

/-- The document that a text holds; a byte order mark in front is not part of it. -/
def parse? (text : String) : Option Fields :=
  let cs := text.toList
  let cs := (after? '\ufeff' cs).getD cs
  (readLines (cs.length + 1) .empty cs).map Document.root

end CodeAtlas.Toml
