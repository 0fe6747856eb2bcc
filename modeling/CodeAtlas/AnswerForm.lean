import CodeAtlas.Text.Lowering

/-!
The forms in which answers are written.
-/

namespace CodeAtlas

/-- Tables for a terminal, JSON for programs, or Markdown. -/
inductive AnswerForm where
  | text
  | json
  | markdown
  deriving Repr, DecidableEq, Inhabited

namespace AnswerForm

/-- The name of a form, by which it is asked for. -/
def name : AnswerForm → String
  | text => "text"
  | json => "json"
  | markdown => "markdown"

/-- The form of a name as it is stored, in lower case and unabbreviated. -/
def ofName? (s : String) : Option AnswerForm :=
  [text, json, markdown].find? (·.name == s)

/-- The form that a user names, in any case; Markdown may be abbreviated. -/
def parse (s : String) : Except String AnswerForm :=
  let lower := Text.lowercase s
  if lower = "md" then .ok markdown
  else
    match ofName? lower with
    | some format => .ok format
    | none => .error ("unknown output format: " ++ lower)

/-- Every form is found under its own name. -/
theorem ofName?_name (f : AnswerForm) : ofName? f.name = some f := by
  cases f <;> decide

end AnswerForm

end CodeAtlas
