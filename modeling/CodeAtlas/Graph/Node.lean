import CodeAtlas.Text.Path

/-!
Nodes of the graph: the files of a repository and the symbols declared in them. A node's id is made
of its kind, its file and its name, so that reading the same text again gives the same ids.
-/

namespace CodeAtlas

/-- What a node stands for. -/
inductive NodeKind where
  | file
  | function
  | classType
  | interfaceType
  | typeAlias
  | binding
  deriving Repr, DecidableEq, Inhabited

namespace NodeKind

/-- All kinds, in the order in which they are listed. -/
def all : List NodeKind :=
  [file, function, classType, interfaceType, typeAlias, binding]

/-- The name of a kind of nodes, as it is written in records and ids. -/
def name : NodeKind → String
  | file => "file"
  | function => "function"
  | classType => "class"
  | interfaceType => "interface"
  | typeAlias => "type"
  | binding => "variable"

/-- The kind of nodes with a name. -/
def ofName? (s : String) : Option NodeKind :=
  all.find? (·.name == s)

/-- Every kind is found under its own name. -/
theorem ofName?_name (k : NodeKind) : ofName? k.name = some k := by
  cases k <;> decide

/-- Kinds that can be called: functions, and classes as their constructors. -/
def isCallable : NodeKind → Bool
  | function => true
  | classType => true
  | _ => false

/-- Kinds that others can extend or implement. -/
def isSupertype : NodeKind → Bool
  | classType => true
  | interfaceType => true
  | _ => false

end NodeKind

/-- A file or a symbol declared in one. -/
structure Node where
  id : String
  kind : NodeKind
  /-- The name of the symbol, or of the file without its directory. -/
  label : String
  filePath : String
  directory : String
  language : String
  lineStart : Option Nat
  lineEnd : Option Nat
  communityId : Option String
  deriving Repr, DecidableEq, Inhabited

namespace Node

/-- The id of the node of a file. -/
def idOfFile (path : String) : String :=
  "file:" ++ path

/-- The id of the node of a symbol. -/
def idOfSymbol (kind : NodeKind) (path name : String) : String :=
  kind.name ++ ":" ++ path ++ "::" ++ name

/-- The node of a file. -/
def ofFile (path language : String) : Node where
  id := idOfFile path
  kind := .file
  label := Text.fileName path
  filePath := path
  directory := Text.folderOf path
  language := language
  lineStart := none
  lineEnd := none
  communityId := none

/-- The node of a symbol; it ends no earlier than it starts. -/
def ofSymbol (kind : NodeKind) (name path language : String) (lineStart lineEnd : Nat) : Node where
  id := idOfSymbol kind path name
  kind := kind
  label := name
  filePath := path
  directory := Text.folderOf path
  language := language
  lineStart := some lineStart
  lineEnd := some (max lineEnd lineStart)
  communityId := none

/-- Whether the node stands for a file. -/
def isFile (n : Node) : Bool :=
  n.kind == .file

/-- Whether a line lies in the node's range. -/
def spans (n : Node) (line : Nat) : Bool :=
  match n.lineStart, n.lineEnd with
  | some first, some last => decide (first ≤ line) && decide (line ≤ last)
  | _, _ => false

/-- A symbol's node contains a line exactly if the line lies between its ends. -/
theorem spans_ofSymbol (kind : NodeKind) (name path language : String)
    (first last line : Nat) :
    (ofSymbol kind name path language first last).spans line = true ↔
      first ≤ line ∧ line ≤ max last first := by
  simp [ofSymbol, spans]

end Node

end CodeAtlas
