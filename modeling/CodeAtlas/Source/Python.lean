import CodeAtlas.Source.Outline
import CodeAtlas.Source.Block

/-!
Declarations and imports of Python sources.
-/

namespace CodeAtlas.Source.Python

open Pattern

/-- Words that look like calls before a parenthesis but are none. -/
def keywords : List String :=
  ["if", "elif", "for", "while", "return", "def", "class", "and", "or", "not", "in", "is",
    "lambda", "with", "assert", "yield", "await", "print", "except", "raise", "del", "super",
    "self"]

/-! ### Patterns -/

/-- A name: a letter or underscore, then word characters. -/
def name : Pattern :=
  seq (one fun c => c.isAlpha || c == '_') (many (one Text.isWord))

/-- A function; the first group is its indentation, the second its name. -/
def functionHeader : Pattern :=
  sequence [textStart, group 1 blanks, optional (seq (literal "async") blanks1), literal "def",
    blanks1, group 2 name, blanks, char '(']

/-- A class; the groups are its indentation, its name and its bases. -/
def classHeader : Pattern :=
  sequence [textStart, group 1 blanks, literal "class", blanks1, group 2 name, blanks,
    optional (sequence [char '(', group 3 (many (noneOf [')'])), char ')']), blanks, char ':']

/-- A constant: a name in capitals at the start of its line, with a value. -/
def constantHeader : Pattern :=
  sequence [textStart,
    group 1 (seq (one Char.isUpper)
      (atLeastOne (one fun c => c.isUpper || c.isDigit || c == '_'))),
    blanks, optional (seq (char ':') (atLeastOne (noneOf ['=']))), char '=', noneOf ['=']]

/-- A character of a module's dotted name. -/
def dotted (c : Char) : Bool :=
  c == '.' || Text.isWord c

/-- An import of names from a module: in brackets, or up to the end of the line or a comment. -/
def importFrom : Pattern :=
  sequence [lineStart, blanks, literal "from", blanks1, group 1 (atLeastOne (one dotted)), blanks1,
    literal "import", blanks1,
    group 2 (alt (sequence [char '(', many (noneOf [')']), char ')'])
      (atLeastOne (noneOf ['\n', '#'])))]

/-- A module's name, under a name of its own or not. -/
def moduleReference : Pattern :=
  seq (atLeastOne (one dotted))
    (optional (sequence [blanks1, literal "as", blanks1, atLeastOne (one Text.isWord)]))

/-- A statement that imports modules; the first group is their list. -/
def importModules : Pattern :=
  sequence [lineStart, blanks, literal "import", blanks1,
    group 1 (seq moduleReference (many (sequence [blanks, char ',', blanks, moduleReference])))]

/-! ### Declarations -/

/-- The bases of a class: the last segments of what is listed, keyword arguments and the common
root of all classes apart. -/
def bases (list : List Char) : List String :=
  ((((Text.splitAt ',' list).map Text.trim).filter fun base =>
      !base.isEmpty && !base.contains '=').map
    fun base => String.ofList (Text.afterLast '.' base)).filter (· ≠ "object")

/-- What a line declares: kind, name, indentation and bases. -/
structure Header where
  kind : NodeKind
  name : String
  indent : Nat
  bases : List String

/-- The width of a group of blanks. -/
def width (m : Match) (number : Nat) : Nat :=
  indentation (m.text number)

/-- The header that a line holds, by the first pattern that fits. -/
def header? (line : List Char) : Option Header :=
  match classHeader.search line with
  | some m => some ⟨.classType, m.string 2, width m 1, bases (m.text 3)⟩
  | none =>
    match functionHeader.search line with
    | some m => some ⟨.function, m.string 2, width m 1, []⟩
    | none => (constantHeader.search line).map fun m => ⟨.binding, m.string 1, 0, []⟩

/-- The declarations of the lines that are left, `before` lines having been read. -/
def declarationsFrom (all : List (List Char)) (before : Nat) :
    List (List Char) → List Declaration
  | [] => []
  | line :: rest =>
    let more := declarationsFrom all (before + 1) rest
    match header? line with
    | some h =>
      let last :=
        if h.kind = .binding then before + 1 else indentedEnd all before h.indent
      ⟨h.name, h.kind, before + 1, last, h.bases, []⟩ :: more
    | none => more

/-- The declarations of a source in order of their lines. A second declaration of one kind and name
is left out. -/
def declarations (lines : List (List Char)) : List Declaration :=
  Declaration.distinct [] (declarationsFrom lines 0 lines)

/-! ### Imports -/

/-- A text without any of the given character at its start. -/
def dropLeading (c : Char) (cs : List Char) : List Char :=
  cs.dropWhile (· == c)

/-- A text without any of the given character at its end. -/
def dropTrailing (c : Char) (cs : List Char) : List Char :=
  (cs.reverse.dropWhile (· == c)).reverse

/-- The names that an import takes from a module. -/
def importNames (list : List Char) : List String :=
  (Text.splitAt ',' (dropTrailing ')' (dropLeading '(' (Text.trim list)))).filterMap fun part =>
    match Text.words part with
    | word :: _ => if isName word then some (String.ofList word) else none
    | [] => none

/-- The import of one module: it binds the name after `as`, else the last segment. -/
def moduleImport? (line : Nat) (part : List Char) : Option Import :=
  match Text.words part with
  | [] => none
  | modulePath :: ['a', 's'] :: bound :: _ =>
    some ⟨[String.ofList bound], String.ofList modulePath, line⟩
  | modulePath :: _ =>
    some ⟨[String.ofList (Text.afterLast '.' modulePath)], String.ofList modulePath, line⟩

/-- The imports of a source in order of their lines. -/
def imports (content : List Char) : List Import :=
  let named (m : Match) : Import :=
    ⟨importNames (m.text 2), m.string 1, lineNumber content m.start⟩
  let whole (m : Match) : List Import :=
    (Text.splitAt ',' (m.text 1)).filterMap (moduleImport? (lineNumber content m.start))
  ((importFrom.matchesIn content).map named ++
    (importModules.matchesIn content).flatMap whole).mergeSort fun a b => a.line ≤ b.line

end CodeAtlas.Source.Python
