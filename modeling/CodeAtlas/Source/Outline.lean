import CodeAtlas.Graph.Node

/-!
What is read off the text of one source file: the symbols it declares, its import statements and the
places where it calls something.
-/

namespace CodeAtlas

/-- A declared symbol with the lines it spans, counted from one. -/
structure Declaration where
  name : String
  kind : NodeKind
  lineStart : Nat
  lineEnd : Nat
  /-- The named supertypes that are extended. -/
  extended : List String
  /-- The named interfaces that are implemented. -/
  implemented : List String
  deriving Repr, DecidableEq, Inhabited

/-- An import statement: the names it binds and the module as written. -/
structure Import where
  names : List String
  moduleName : String
  line : Nat
  deriving Repr, DecidableEq, Inhabited

/-- A call: the last segment of the called name. -/
structure Call where
  callee : String
  line : Nat
  deriving Repr, DecidableEq, Inhabited

/-- Everything read off one file. -/
structure Outline where
  declarations : List Declaration
  imports : List Import
  calls : List Call
  deriving Repr, DecidableEq, Inhabited

/-- The outline of a file of which nothing is known. -/
def Outline.empty : Outline :=
  ⟨[], [], []⟩

/-- Keeps the declarations whose kind and name have not been declared before. -/
def Declaration.distinct (seen : List (NodeKind × String)) :
    List Declaration → List Declaration
  | [] => []
  | d :: rest =>
    if seen.contains (d.kind, d.name) then distinct seen rest
    else d :: distinct ((d.kind, d.name) :: seen) rest

end CodeAtlas
