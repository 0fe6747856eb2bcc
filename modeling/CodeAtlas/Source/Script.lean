import CodeAtlas.Source.Outline
import CodeAtlas.Source.Block

/-!
Declarations and imports of scripts. A line declares what the first pattern that fits says it does;
methods are looked for in a second pass, strictly inside the lines of a class.
-/

namespace CodeAtlas.Source.Script

open Pattern

/-- Names that no declaration, method or call can have. -/
def keywords : List String :=
  ["if", "for", "while", "switch", "catch", "return", "function", "typeof", "super", "import",
    "require", "await", "new", "delete", "void", "yield", "constructor", "else", "do", "try",
    "with", "in", "of", "instanceof"]

/-! ### Patterns -/

/-- A word with blanks after it, or nothing. -/
def modifier (word : String) : Pattern :=
  optional (seq (literal word) blanks1)

/-- The word that introduces variables. -/
def binder : Pattern :=
  anyLiteral ["const", "let", "var"]

/-- A type after a colon, up to an equals sign, or nothing. -/
def typeAnnotation : Pattern :=
  optional (seq (char ':') (atLeastOne (noneOf ['='])))

/-- Parameters in parentheses that hold no closing one. -/
def parameters : Pattern :=
  sequence [char '(', many (noneOf [')']), char ')']

/-- Type parameters or arguments, up to the first closing bracket. -/
def angled : Pattern :=
  sequence [char '<', many (noneOf ['>']), char '>']

/-- A function with a name of its own. -/
def functionHeader : Pattern :=
  sequence [textStart, blanks, modifier "export", modifier "default", modifier "async",
    literal "function", blanks, optional (char '*'), blanks, group 1 name, blanks,
    one fun c => c == '<' || c == '(']

/-- A variable whose value is a function or an arrow, or starts with an open bracket. -/
def arrowHeader : Pattern :=
  sequence [textStart, blanks, modifier "export", binder, blanks1, group 1 name, blanks,
    typeAnnotation, char '=', blanks, modifier "async",
    oneOf [seq (literal "function") wordEdge,
      sequence [parameters, blanks, typeAnnotation, literal "=>"],
      sequence [name, blanks, literal "=>"],
      seq (char '(') textEnd]]

/-- The start of a class; the first group is its name. -/
def classHeader : Pattern :=
  sequence [textStart, blanks, modifier "export", modifier "default", modifier "abstract",
    literal "class", blanks1, group 1 name]

/-- The start of an interface; the first group is its name. -/
def interfaceHeader : Pattern :=
  sequence [textStart, blanks, modifier "export", modifier "declare", literal "interface", blanks1,
    group 1 name]

/-- The start of a type alias; the first group is its name. -/
def typeAliasHeader : Pattern :=
  sequence [textStart, blanks, modifier "export", modifier "declare", literal "type", blanks1,
    group 1 name, blanks, optional (sequence [char '<', many (noneOf ['=']), char '>']), blanks,
    char '=']

/-- A variable that is exported at the start of its line. -/
def variableHeader : Pattern :=
  sequence [textStart, literal "export", blanks1, binder, blanks1, group 1 name, blanks,
    typeAnnotation, char '=']

/-- A method, with its body opened on the same line. -/
def methodHeader : Pattern :=
  sequence [textStart, blanks1,
    many (seq (anyLiteral ["public", "private", "protected", "static", "async", "override",
      "readonly", "get", "set"]) blanks1),
    group 1 name, blanks, optional angled, blanks, char '(', many (noneOf [';']), char ')', blanks,
    optional (sequence [char ':', blanks, atLeastOne (noneOf ['\x7b', ';'])]), char '\x7b', blanks,
    textEnd]

/-- A field whose value is an arrow. -/
def arrowMethodHeader : Pattern :=
  sequence [textStart, blanks1,
    many (seq (anyLiteral ["public", "private", "protected", "static", "readonly"]) blanks1),
    group 1 name, blanks, typeAnnotation, char '=', blanks, modifier "async", parameters, blanks,
    typeAnnotation, literal "=>"]

/-- A type's name with its segments and, in angle brackets, its arguments. -/
def typeReference : Pattern :=
  sequence [one startsName, many (one fun c => continuesName c || c == '.'),
    optional (seq blanks angled)]

/-- The clause of the types that are extended; the first group is their list. -/
def extendsClause : Pattern :=
  sequence [wordEdge, literal "extends", blanks1,
    group 1 (seq typeReference (many (sequence [blanks, char ',', blanks, typeReference])))]

/-- The list of types after `implements`, up to an opening brace or the end of the line. -/
def implementsClause : Pattern :=
  sequence [wordEdge, literal "implements", blanks1,
    group 1 (seq (one startsName)
      (few (one fun c => continuesName c || c == '.' || c == ',' || Text.isBlank c || c == '<' ||
        c == '>'))),
    blanks, optional (char '\x7b'), blanks, textEnd]

/-- Either quote. -/
def quote : Pattern :=
  one fun c => c == '\'' || c == '"'

/-- The module of an import in quotes; it fills a group. -/
def quotedModule (number : Nat) : Pattern :=
  sequence [quote, group number (atLeastOne (noneOf ['\'', '"'])), quote]

/-- An import of names from a module. -/
def importFrom : Pattern :=
  sequence [lineStart, blanks, literal "import", blanks1, group 1 (few (noneOf [';', '\'', '"'])),
    blanks1, literal "from", blanks1, quotedModule 2]

/-- An import for its effects alone; the first group is the module. -/
def importBare : Pattern :=
  sequence [lineStart, blanks, literal "import", blanks1, quotedModule 1]

/-- A variable that is bound to a required module. -/
def importRequire : Pattern :=
  sequence [lineStart, blanks, binder, blanks1,
    group 1 (alt (sequence [char '\x7b', many (noneOf ['\x7d']), char '\x7d']) name),
    blanks, char '=', blanks, literal "require(", blanks, quotedModule 2, blanks, char ')']

/-! ### Declarations -/

/-- Cuts a list of types at the commas outside angle brackets, whose contents are dropped; `depth`
of them are open and `current` is the piece that is being read, backwards. -/
def splitTypes (depth : Nat) (current : List Char) : List Char → List (List Char)
  | [] => [current.reverse]
  | c :: rest =>
    if c = '<' then splitTypes (depth + 1) current rest
    else if c = '>' then splitTypes (depth - 1) current rest
    else if depth ≠ 0 then splitTypes depth current rest
    else if c = ',' then current.reverse :: splitTypes 0 [] rest
    else splitTypes 0 (c :: current) rest

/-- The last segments of the types in a list, without their arguments. -/
def typeNames (list : List Char) : List String :=
  ((splitTypes 0 [] list).map fun piece =>
    String.ofList (Text.trim (Text.afterLast '.' (Text.trim piece)))).filter (· ≠ "")

/-- The types that a clause lists, none where the clause is missing. -/
def clauseTypes (clause : Pattern) (tail : List Char) : List String :=
  match clause.search tail with
  | some m => typeNames (m.text 1)
  | none => []

/-- What a line declares: kind, name and supertypes. -/
structure Header where
  kind : NodeKind
  name : String
  extended : List String
  implemented : List String

/-- The header that a line holds, by the first pattern that fits. -/
def header? (line : List Char) : Option Header :=
  match classHeader.search line with
  | some m => some ⟨.classType, m.string 1, clauseTypes extendsClause m.stop.rest,
      clauseTypes implementsClause m.stop.rest⟩
  | none =>
    match interfaceHeader.search line with
    | some m => some ⟨.interfaceType, m.string 1, clauseTypes extendsClause m.stop.rest, []⟩
    | none =>
      [(functionHeader, NodeKind.function), (arrowHeader, .function), (typeAliasHeader, .typeAlias),
        (variableHeader, .binding)].findSome? fun (p, kind) =>
          (p.search line).map fun m => ⟨kind, m.string 1, [], []⟩

/-- The declarations of the lines that are left, `before` lines having been read. -/
def declarationsFrom (stripped : List (List Char)) (before : Nat) :
    List (List Char) → List Declaration
  | [] => []
  | line :: rest =>
    let more := declarationsFrom stripped (before + 1) rest
    match header? line with
    | some h =>
      ⟨h.name, h.kind, before + 1, bracedEnd stripped before, h.extended, h.implemented⟩ :: more
    | none => more

/-- The reading of a line as the header of a method. -/
def method? (line : List Char) : Option Match :=
  match methodHeader.search line with
  | some m => some m
  | none => arrowMethodHeader.search line

/-- Whether a line lies strictly inside a declaration. -/
def isInside (d : Declaration) (line : Nat) : Bool :=
  decide (d.lineStart < line) && decide (line < d.lineEnd)

/-- The methods in the lines that are left, `before` lines having been read. -/
def methodsFrom (classes : List Declaration) (stripped : List (List Char)) (before : Nat) :
    List (List Char) → List Declaration
  | [] => []
  | line :: rest =>
    let more := methodsFrom classes stripped (before + 1) rest
    if classes.any (isInside · (before + 1)) then
      match method? line with
      | some m =>
        if keywords.contains (m.string 1) then more
        else ⟨m.string 1, .function, before + 1, bracedEnd stripped before, [], []⟩ :: more
      | none => more
    else more

/-- The declarations of a script in order of their lines. A second declaration of one kind and name
is left out. -/
def declarations (lines : List (List Char)) : List Declaration :=
  let stripped := lines.map withoutStrings
  let top := Declaration.distinct [] (declarationsFrom stripped 0 lines)
  let methods := methodsFrom (top.filter (·.kind == .classType)) stripped 0 lines
  let methods := Declaration.distinct (top.map fun d => (d.kind, d.name)) methods
  (top ++ methods).mergeSort fun a b => a.lineStart ≤ b.lineStart

/-! ### Imports -/

/-- A text without `type ` in front. -/
def withoutType (cs : List Char) : List Char :=
  (Text.afterStart? "type ".toList cs).getD cs

/-- The parts of an import clause outside and inside its braces. -/
def clauseParts (clause : List Char) : List Char × Option (List Char) :=
  match clause.idxOf? '\x7b', clause.reverse.idxOf? '\x7d' with
  | some opening, some fromEnd =>
    let closing := clause.length - 1 - fromEnd
    if opening < closing then
      (clause.take opening ++ clause.drop (closing + 1),
        some ((clause.take closing).drop (opening + 1)))
    else (clause, none)
  | _, _ => (clause, none)

/-- The name that a part outside the braces binds: a default, or a whole module under a name. -/
def outerName? (part : List Char) : Option String :=
  let part := Text.trim part
  let bound :=
    match Text.afterStart? "* as ".toList part with
    | some name => Text.trim name
    | none => part
  if isName bound then some (String.ofList bound) else none

/-- The name that a specifier inside the braces has in the other module, before any renaming. -/
def innerName? (part : List Char) : Option String :=
  let word := (Text.words (withoutType (Text.trim part))).headD []
  let outer := (Text.splitAt ':' word).headD []
  if isName outer then some (String.ofList outer) else none

/-- The names that an import clause binds: those outside the braces, then those inside. -/
def importNames (clause : List Char) : List String :=
  let (outside, inside) := clauseParts (withoutType (Text.trim clause))
  (Text.splitAt ',' outside).filterMap outerName? ++
    match inside with
    | some inside => (Text.splitAt ',' inside).filterMap innerName?
    | none => []

/-- The imports of a script in order of their lines. -/
def imports (content : List Char) : List Import :=
  let named (m : Match) : Import :=
    ⟨importNames (m.text 1), m.string 2, lineNumber content m.start⟩
  let bare (m : Match) : Import := ⟨[], m.string 1, lineNumber content m.start⟩
  ((importFrom.matchesIn content).map named ++ (importBare.matchesIn content).map bare ++
    (importRequire.matchesIn content).map named).mergeSort fun a b => a.line ≤ b.line

end CodeAtlas.Source.Script
