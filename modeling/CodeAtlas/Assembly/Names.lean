import CodeAtlas.Graph.Node

/-!
What a name can mean. Within a file a callable name means its function before its class, and a
type's name its class before its interface; over all files the candidates are in order of their ids.
-/

namespace CodeAtlas

namespace Names

/-- The symbol of a kind and a name. -/
def ofKind? (nodes : List Node) (kind : NodeKind) (name : String) : Option String :=
  (nodes.find? fun n => n.kind == kind && n.label == name).map Node.id

/-- The function of a name among the symbols of one file, else the class. -/
def callable? (declared : List Node) (name : String) : Option String :=
  match ofKind? declared .function name with
  | some id => some id
  | none => ofKind? declared .classType name

/-- The class of a name among the symbols of one file, else the interface. -/
def supertype? (declared : List Node) (name : String) : Option String :=
  match ofKind? declared .classType name with
  | some id => some id
  | none => ofKind? declared .interfaceType name

/-- The ids of all nodes of a name whose kind fits, in order. -/
def sortedIds (fits : NodeKind → Bool) (nodes : List Node) (name : String) : List String :=
  ((nodes.filter fun n => fits n.kind && n.label == name).map Node.id).mergeSort
    fun a b => decide (a ≤ b)

/-- Everything of a name that can be called. -/
def callableIds (nodes : List Node) (name : String) : List String :=
  sortedIds NodeKind.isCallable nodes name

/-- The first class or interface of a name. -/
def firstSupertype? (nodes : List Node) (name : String) : Option String :=
  (sortedIds NodeKind.isSupertype nodes name).head?

end Names

end CodeAtlas
