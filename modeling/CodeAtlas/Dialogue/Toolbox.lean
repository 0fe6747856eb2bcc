import CodeAtlas.Dialogue.Tool
import CodeAtlas.Report.Surroundings
import CodeAtlas.Report.Summary
import CodeAtlas.Impact.Markdown
import CodeAtlas.Search.Markdown
import CodeAtlas.Settings
import Std.Data.TreeMap

/-!
The tools that a language model may call: how each is declared to it, and what answers its calls.
The standard toolbox answers every question about a graph in Markdown.
-/

namespace CodeAtlas

/-- What a tool may read: a graph, its index and its search engine. -/
structure Workspace where
  graph : RepoGraph
  index : Adjacency
  engine : Search.Engine
  constants : Search.Constants Float

namespace Workspace

/-- What the tools work on, made of a graph. -/
def ofGraph (g : RepoGraph) (s : SearchSettings) : Workspace :=
  ⟨g, Adjacency.ofGraph g, Search.Engine.ofNodes g.nodes, ⟨s.bm25K1, s.bm25B, s.rrfK⟩⟩

end Workspace

/-- How a tool is declared to a model: a name, a sentence and a schema of its arguments. -/
structure ToolDeclaration where
  name : String
  description : String
  parameters : Json

namespace ToolDeclaration

/-- The record of a declaration. -/
def toJson (s : ToolDeclaration) : Json :=
  .obj [("type", .str "function"),
    ("function", .obj [("name", .str s.name), ("description", .str s.description),
      ("parameters", s.parameters)])]

/-- The schema of an object with some properties. -/
def objectSchema (properties : List (String × Json)) (required : List String) : Json :=
  .obj ([("type", .str "object"), ("properties", .obj properties)] ++
    if required.isEmpty then [] else [("required", Json.ofStrings required)])

/-- The schema of a property of a given type. -/
def property (type description : String) : Json :=
  .obj [("type", .str type), ("description", .str description)]

/-- The declaration of the search. -/
def search : ToolDeclaration where
  name := "search"
  description :=
    "Hybrid keyword search over every symbol and file in the graph. Returns ranked node ids."
  parameters := objectSchema
    [("query", property "string" "Natural-language or identifier query"),
      ("topK", property "integer" "Maximum results (default 10)")] ["query"]

/-- The declaration of the surroundings of a node. -/
def context : ToolDeclaration where
  name := "context"
  description := "Callers, callees, community, execution flows and file imports of one node."
  parameters := objectSchema
    [("nodeId", property "string" "Node id as returned by search")] ["nodeId"]

/-- The declaration of the impact of a change. -/
def impact : ToolDeclaration where
  name := "impact"
  description :=
    "Blast radius of changing the given symbols: dependents at depth 1-3, risk level, " ++
      "affected flows."
  parameters := objectSchema
    [("symbolIds", .obj [("type", .str "array"), ("items", .obj [("type", .str "string")])])]
    ["symbolIds"]

/-- The declaration of the overview. -/
def overview : ToolDeclaration where
  name := "overview"
  description := "Repository summary: counts, languages, largest communities, longest flows, " ++
    "most-called symbols."
  parameters := objectSchema [] []

end ToolDeclaration

/-- What answers the calls of a tool. -/
abbrev Handler : Type :=
  Workspace → Tool → Except Fault String

namespace Handler

/-- The fault of a handler that is given another tool's call. -/
def wrongTool (expected : String) (tool : Tool) : Fault :=
  .config (expected ++ " handler received a " ++ tool.name ++ " call")

/-- How many results a search without a limit returns. -/
def usualLimit : Nat := 10

/-- How many results a search returns at most. -/
def largestLimit : Nat := 50

/-- Searches with the limit that is asked for, within bounds. -/
def search : Handler
  | w, .search query limit =>
    let limit := max 1 (min (limit.getD usualLimit) largestLimit)
    .ok (Search.markdown query (w.engine.search w.constants query limit))
  | _, other => .error (wrongTool "search" other)

/-- Answers a question for the context of a node. -/
def context : Handler
  | w, .context nodeId => (Surroundings.ofId w.graph w.index nodeId).map Surroundings.markdown
  | _, other => .error (wrongTool "context" other)

/-- Answers a question for the impact of a change. -/
def impact : Handler
  | w, .impact symbolIds => .ok (Impact.ofChangeIn symbolIds w.graph).markdown
  | _, other => .error (wrongTool "impact" other)

/-- Gives an overview of the graph. -/
def overview : Handler
  | w, .overview => .ok (Summary.ofGraph w.graph).markdown
  | _, other => .error (wrongTool "overview" other)

end Handler

/-- The declared tools in the order in which they were added, and the handlers by the names of their
tools. -/
structure Toolbox where
  declarations : List ToolDeclaration
  handlers : Std.TreeMap String Handler

namespace Toolbox

/-- A toolbox without tools. -/
def empty : Toolbox :=
  ⟨[], {}⟩

/-- The names of the tools, in the order in which they were added. -/
def names (t : Toolbox) : List String :=
  t.declarations.map ToolDeclaration.name

/-- The handler of the tool with a name. -/
def handler? (t : Toolbox) (name : String) : Option Handler :=
  t.handlers[name]?

/-- Adds a tool under a name that is not taken yet. -/
def add (t : Toolbox) (declaration : ToolDeclaration) (handler : Handler) :
    Except Fault Toolbox :=
  if t.handlers.contains declaration.name then
    .error (.config ("tool " ++ declaration.name ++ " registered twice"))
  else
    .ok { declarations := t.declarations ++ [declaration]
          handlers := t.handlers.insert declaration.name handler }

/-- A tool that is added comes last. -/
theorem names_add {t u : Toolbox} {declaration : ToolDeclaration} {handler : Handler}
    (h : t.add declaration handler = .ok u) : u.names = t.names ++ [declaration.name] := by
  unfold add at h
  split at h
  · cases h
  · cases h
    simp [names]

/-- The toolbox after a tool has been offered to it: with the tool if its name was not taken. -/
def offer (t : Toolbox) (tool : ToolDeclaration × Handler) : Toolbox :=
  match t.add tool.1 tool.2 with
  | .ok u => u
  | .error _ => t

/-- The toolbox after tools have been offered to it one after the other. -/
def offerAll (t : Toolbox) (tools : List (ToolDeclaration × Handler)) : Toolbox :=
  tools.foldl offer t

/-- The tools for all questions about a graph. -/
def standardTools : List (ToolDeclaration × Handler) :=
  [(.search, .search), (.context, .context), (.impact, .impact), (.overview, .overview)]

/-- The toolbox of all questions about a graph. -/
def standard : Toolbox :=
  empty.offerAll standardTools

/-- What a toolbox lacks to answer the calls of a name. -/
def lack? (t : Toolbox) (name : String) : Option String :=
  if !t.names.contains name then some ("tool " ++ name ++ " is not declared")
  else if !t.handlers.contains name then some ("tool " ++ name ++ " has no handler")
  else none

/-- Accepts a toolbox that has every question about a graph and nothing else. -/
def checkComplete (t : Toolbox) : Except Fault Unit :=
  match Tool.names.findSome? t.lack? with
  | some message => .error (.config message)
  | none =>
    match t.names.find? (! Tool.names.contains ·) with
    | some name => .error (.config ("tool " ++ name ++ " has no variant"))
    | none => .ok ()

/-- Answers a call by name and arguments. -/
def answer (t : Toolbox) (w : Workspace) (name arguments : String) : Except Fault String :=
  match Tool.parse name arguments with
  | .error e => .error e
  | .ok tool =>
    match t.handler? tool.name with
    | some handler => handler w tool
    | none => .error (.notFound ("handler for " ++ tool.name))

end Toolbox

end CodeAtlas
