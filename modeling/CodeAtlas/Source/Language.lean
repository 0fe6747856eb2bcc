import CodeAtlas.Text.Path

/-!
The languages whose sources are read, told by the extension of a file's name.
-/

namespace CodeAtlas

/-- A source language. -/
inductive Language where
  | typeScript
  | javaScript
  | python
  deriving Repr, DecidableEq, Inhabited

namespace Language

/-- The name of a language as nodes carry it. -/
def name : Language → String
  | typeScript => "typescript"
  | javaScript => "javascript"
  | python => "python"

/-- The language of files with an extension. -/
def ofExtension? (extension : String) : Option Language :=
  if ["ts", "tsx", "mts", "cts"].contains extension then some typeScript
  else if ["js", "jsx", "mjs", "cjs"].contains extension then some javaScript
  else if extension = "py" then some python
  else none

/-- The language of a file, by what follows the last point of its name. -/
def ofPath? (path : String) : Option Language :=
  let name := Text.afterLast '/' path.toList
  if name.contains '.' then ofExtension? (String.ofList (Text.afterLast '.' name)) else none

/-- Whether a language is one of the two script languages, which share one way of reading. -/
def usesBraces : Language → Bool
  | typeScript => true
  | javaScript => true
  | python => false

end Language

end CodeAtlas
