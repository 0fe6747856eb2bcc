/-!
Edges of the graph: directed relations between two nodes, with the certainty of each and the reason
for which it was drawn.
-/

namespace CodeAtlas

/-- How one node relates to another. -/
inductive EdgeKind where
  | imports
  | calls
  | definedIn
  | extends
  | implements
  deriving Repr, DecidableEq, Inhabited

namespace EdgeKind

/-- All kinds, in the order in which they are listed. -/
def all : List EdgeKind :=
  [imports, calls, definedIn, .extends, implements]

/-- The name of a kind of edges, as it is written in records and ids. -/
def name : EdgeKind → String
  | imports => "imports"
  | calls => "calls"
  | definedIn => "defined_in"
  | .extends => "extends"
  | implements => "implements"

/-- The kind of edges with a name. -/
def ofName? (s : String) : Option EdgeKind :=
  all.find? (·.name == s)

/-- Every kind is found under its own name. -/
theorem ofName?_name (k : EdgeKind) : ofName? k.name = some k := by
  cases k <;> decide

end EdgeKind

/-- A directed relation between two nodes, given by their ids. -/
structure Edge where
  id : String
  source : String
  target : String
  kind : EdgeKind
  /-- How much the relation counts when nodes are ranked. -/
  weight : Float
  /-- How certain the relation is. -/
  confidence : Float
  reason : String
  deriving Repr, Inhabited

namespace Edge

/-- The nearest number between zero and one; what is no number stays so. -/
def clampUnit (x : Float) : Float :=
  if x < 0.0 then 0.0 else if 1.0 < x then 1.0 else x

/-- The id of the edge of a kind between two nodes. -/
def idOf (kind : EdgeKind) (source target : String) : String :=
  kind.name ++ ":" ++ source ++ "->" ++ target

/-- What a relation counts: a fixed weight for the structure of files, else its certainty. -/
def weightOf (kind : EdgeKind) (confidence : Float) : Float :=
  match kind with
  | .definedIn => 0.5
  | .imports => 0.8
  | .calls => confidence
  | .extends => confidence
  | .implements => confidence

/-- The edge between two nodes, its certainty brought between zero and one. -/
def make (source target : String) (kind : EdgeKind) (confidence : Float) (reason : String) :
    Edge where
  id := idOf kind source target
  source := source
  target := target
  kind := kind
  weight := weightOf kind (clampUnit confidence)
  confidence := clampUnit confidence
  reason := reason

end Edge

end CodeAtlas
