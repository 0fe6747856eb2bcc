import CodeAtlas.Source.Language
import CodeAtlas.Source.Script
import CodeAtlas.Source.Python

/-!
Calls, and the reading of a whole file. Reading never fails: what fits no pattern is left out. A
call is a name before an opening bracket; keywords, the name that a line declares, and whatever
stands in comments, strings and import statements are none.
-/

namespace CodeAtlas.Source

open Pattern

/-- A name right before an opening bracket. -/
def call : Pattern :=
  sequence [group 1 name, blanks, char '(']

/-- The names of a language that cannot be called. -/
def keywords (language : Language) : List String :=
  if language.usesBraces then Script.keywords else Python.keywords

/-- What a line starts with that is a comment. -/
def commentStarts (language : Language) : List String :=
  if language.usesBraces then ["//", "/*", "*"] else ["#"]

/-- What starts a comment at the end of a line. -/
def trailingComment (language : Language) : String :=
  if language.usesBraces then "//" else "#"

/-- Whether a line, from its first character that is not blank, is a comment or an import. -/
def isSkipped (language : Language) (trimmed : List Char) : Bool :=
  (commentStarts language ++ ["import ", "from "]).any fun start =>
    (Text.afterStart? start.toList trimmed).isSome

/-- The code of a line: strings are emptied and the comment at its end is cut off. -/
def codeOf (language : Language) (line : List Char) : List Char :=
  let code := withoutStrings line
  match Text.cutAt? (trailingComment language).toList code with
  | some (before, _) => before
  | none => code

/-- Where the name of a method starts that a line of code declares. -/
def methodStart? (language : Language) (code : List Char) : Option Nat :=
  if language.usesBraces then
    ((Script.method? code).bind (·.span? 1)).map Span.start
  else none

/-- Whether a text, without blanks at its end, ends with one of two declaring words. -/
def endsWithDeclarator (cs : List Char) : Bool :=
  let ending := (Text.trimEnd cs).reverse
  ["noitcnuf", "fed"].any fun word => (Text.afterStart? word.toList ending).isSome

/-- The calls in a line, in a file with given declarations. -/
def callsOfLine (language : Language) (declared : List Declaration) (line : Nat)
    (raw : List Char) : List Call :=
  if isSkipped language (Text.trimStart raw) then []
  else
    let code := codeOf language raw
    let method := methodStart? language code
    (call.matchesIn code).filterMap fun m =>
      let callee := m.string 1
      if (keywords language).contains callee then none
      else if method.isSome && method == some m.start then none
      else if declared.any fun d => d.lineStart == line && d.name == callee then none
      else if endsWithDeclarator (code.take m.start) then none
      else some ⟨callee, line⟩

/-- The calls in the lines that are left, `before` lines having been read. -/
def callsFrom (language : Language) (declared : List Declaration) (before : Nat) :
    List (List Char) → List Call
  | [] => []
  | line :: rest =>
    callsOfLine language declared (before + 1) line ++
      callsFrom language declared (before + 1) rest

/-- The outline of a file in a language. -/
def read (language : Language) (content : List Char) : Outline :=
  let lines := Text.lines content
  let declarations :=
    if language.usesBraces then Script.declarations lines else Python.declarations lines
  let imports := if language.usesBraces then Script.imports content else Python.imports content
  ⟨declarations, imports, callsFrom language declarations 0 lines⟩

/-- The outline of a file; nothing is read where its language is not known. -/
def parse (content path : String) : Outline :=
  match Language.ofPath? path with
  | some language => read language content.toList
  | none => Outline.empty

end CodeAtlas.Source
