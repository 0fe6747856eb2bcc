import CodeAtlas.Fault
import CodeAtlas.Impact.Markdown

/-!
Everything that a graph knows about one node: who calls it and whom it calls, its community, the
flows through it, and the files that its own file imports or that import it.
-/

namespace CodeAtlas

/-- A node at the other end of a call. -/
structure Neighbour where
  id : String
  label : String
  kind : NodeKind
  filePath : String
  confidence : Float
  reason : String
  deriving Repr, Inhabited

namespace Neighbour

/-- A node and the edge that leads to it or comes from it. -/
def ofEdge (n : Node) (e : Edge) : Neighbour :=
  ⟨n.id, n.label, n.kind, n.filePath, e.confidence, e.reason⟩

/-- The line of a neighbour. -/
def entry (n : Neighbour) : String :=
  "- **" ++ n.label ++ "** " ++ codeSpan n.filePath ++ " confidence " ++
    Decimal.fixed 2 n.confidence ++ " (" ++ n.reason ++ ")\n"

/-- The record of a neighbour. -/
def toJson (n : Neighbour) : Json :=
  .obj [("id", .str n.id), ("label", .str n.label), ("type", .str n.kind.name),
    ("filePath", .str n.filePath), ("confidence", Json.ofFloat n.confidence),
    ("reason", .str n.reason)]

end Neighbour

/-- What a graph knows about a node. -/
structure Surroundings where
  node : Node
  callers : List Neighbour
  callees : List Neighbour
  community : Option Community
  flows : List Flow
  /-- The files that the node's file imports. -/
  imports : List String
  /-- The files that import the node's file. -/
  importedBy : List String
  deriving Repr, Inhabited

namespace Surroundings

/-- The neighbours at the given positions and edges. -/
def neighbours (ix : Adjacency) (links : List (Nat × Edge)) : List Neighbour :=
  links.filterMap fun (position, e) => (ix.node? position).map fun n => Neighbour.ofEdge n e

/-- The paths of the nodes at the given positions. -/
def paths (ix : Adjacency) (links : List (Nat × Edge)) : List String :=
  links.filterMap fun (position, _) => (ix.node? position).map Node.filePath

/-- What a graph knows about the node at a position. -/
def ofPosition (g : RepoGraph) (ix : Adjacency) (position : Nat) (n : Node) : Surroundings :=
  let file := ix.fileOf? position
  let throughFile (links : Nat → List (Nat × Edge)) : List String :=
    match file with
    | some file => paths ix (links file)
    | none => []
  { node := n
    callers := neighbours ix (ix.incoming position [.calls])
    callees := neighbours ix (ix.outgoing position [.calls])
    community := n.communityId.bind fun id => g.communities.find? (·.id == id)
    flows := g.flows.filter (·.steps.contains n.id)
    imports := throughFile fun file => ix.outgoing file [.imports]
    importedBy := throughFile fun file => ix.incoming file [.imports] }

/-- What a graph knows about the node with an id. -/
def ofId (g : RepoGraph) (ix : Adjacency) (id : String) : Except Fault Surroundings :=
  match ix.position? id with
  | some position =>
    match ix.node? position with
    | some n => .ok (ofPosition g ix position n)
    | none => .error (.notFound ("node " ++ id))
  | none => .error (.notFound ("node " ++ id))

/-- Where a node is: its file, and its lines if it has any. -/
def location (n : Node) : String :=
  match n.lineStart, n.lineEnd with
  | some first, some last => n.filePath ++ ":" ++ toString first ++ "-" ++ toString last
  | _, _ => n.filePath

/-- A heading with a count, and the entries below it. -/
def listing (title : String) (entries : List String) : String :=
  "### " ++ title ++ " (" ++ toString entries.length ++ ")\n\n" ++ String.join entries ++ "\n"

/-- A listing that is left out where it has no entries. -/
def optionalListing (title : String) (entries : List String) : String :=
  if entries.isEmpty then "" else listing title entries

/-- The line of a file. -/
def fileEntry (path : String) : String :=
  "- " ++ codeSpan path ++ "\n"

/-- The line on the community of a node. -/
def communityLine (c : Community) : String :=
  "- **community:** " ++ c.name ++ " (" ++ toString c.symbolCount ++ " symbols, cohesion " ++
    Decimal.fixed 2 c.cohesion ++ ")\n"

/-- The context of a node as a text. -/
def markdown (c : Surroundings) : String :=
  "## " ++ c.node.label ++ " (" ++ c.node.kind.name ++ ")\n\n- **id:** " ++ codeSpan c.node.id ++
    "\n- **location:** " ++ codeSpan (location c.node) ++ "\n- **language:** " ++
    c.node.language ++ "\n" ++ ((c.community.map communityLine).getD "") ++ "\n" ++
    listing "Callers" (c.callers.map Neighbour.entry) ++
    listing "Callees" (c.callees.map Neighbour.entry) ++
    optionalListing "Execution flows" (c.flows.map Flow.entry) ++
    optionalListing "Imports" (c.imports.map fileEntry) ++
    optionalListing "Imported by" (c.importedBy.map fileEntry)

/-- The record of what surrounds a node. -/
def toJson (c : Surroundings) : Json :=
  .obj [("node", c.node.toJson), ("callers", .arr (c.callers.map Neighbour.toJson)),
    ("callees", .arr (c.callees.map Neighbour.toJson)),
    ("community", (c.community.map Community.toJson).getD .null),
    ("processes", .arr (c.flows.map Flow.toJson)), ("imports", Json.ofStrings c.imports),
    ("importedBy", Json.ofStrings c.importedBy)]

end Surroundings

end CodeAtlas
