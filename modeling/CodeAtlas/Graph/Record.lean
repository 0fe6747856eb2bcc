import CodeAtlas.Graph.Basic
import CodeAtlas.Json.Record

/-!
The records in which graphs are exchanged, written and read. An absent optional field is not written
at all.
-/

namespace CodeAtlas

/-- A natural number. -/
def Json.ofNat (n : Nat) : Json :=
  .int n

/-- A finite number; infinities and what is no number are written as `null`. -/
def Json.ofFloat (x : Float) : Json :=
  if x.isFinite then .float x else .null

/-- An array of strings. -/
def Json.ofStrings (strings : List String) : Json :=
  .arr (strings.map .str)

/-- The bound below which line numbers lie. -/
def lineBound : Nat :=
  4294967296

/-- The bound below which counts lie. -/
def countBound : Nat :=
  18446744073709551616

namespace Node

/-- The record of a node. Lines and community are written where they are known. -/
def toJson (n : Node) : Json :=
  .obj ([("id", .str n.id), ("type", .str n.kind.name), ("label", .str n.label),
      ("filePath", .str n.filePath), ("directory", .str n.directory),
      ("language", .str n.language)] ++
    Json.fieldIfSome "lineStart" Json.ofNat n.lineStart ++
    Json.fieldIfSome "lineEnd" Json.ofNat n.lineEnd ++
    Json.fieldIfSome "communityId" Json.str n.communityId)

/-- The names of the fields, in their order. -/
def fieldNames : List (List String) :=
  [["id"], ["type"], ["label"], ["filePath"], ["directory"], ["language"], ["lineStart"],
    ["lineEnd"], ["communityId"]]

/-- Reads a node. -/
def ofJson? (j : Json) : Option Node := do
  let r ← j.record? fieldNames
  some {
    id := ← r.required 0 Json.str?
    kind := ← r.required 1 fun k => k.choice?.bind NodeKind.ofName?
    label := ← r.required 2 Json.str?
    filePath := ← r.required 3 Json.str?
    directory := ← r.required 4 Json.str?
    language := ← r.required 5 Json.str?
    lineStart := ← r.optional 6 (Json.natBelow? lineBound)
    lineEnd := ← r.optional 7 (Json.natBelow? lineBound)
    communityId := ← r.optional 8 Json.str? }

end Node

namespace Edge

/-- The record of an edge. -/
def toJson (e : Edge) : Json :=
  .obj [("id", .str e.id), ("source", .str e.source), ("target", .str e.target),
    ("type", .str e.kind.name), ("weight", Json.ofFloat e.weight),
    ("confidence", Json.ofFloat e.confidence), ("reason", .str e.reason)]

/-- The names of the fields, in their order. -/
def fieldNames : List (List String) :=
  [["id"], ["source"], ["target"], ["type"], ["weight"], ["confidence"], ["reason"]]

/-- Reads an edge. -/
def ofJson? (j : Json) : Option Edge := do
  let r ← j.record? fieldNames
  some {
    id := ← r.required 0 Json.str?
    source := ← r.required 1 Json.str?
    target := ← r.required 2 Json.str?
    kind := ← r.required 3 fun k => k.choice?.bind EdgeKind.ofName?
    weight := ← r.required 4 Json.float?
    confidence := ← r.required 5 Json.float?
    reason := ← r.required 6 Json.str? }

end Edge

namespace Community

/-- The record of a community. -/
def toJson (c : Community) : Json :=
  .obj [("id", .str c.id), ("name", .str c.name), ("keywords", Json.ofStrings c.keywords),
    ("cohesion", Json.ofFloat c.cohesion), ("symbolCount", Json.ofNat c.symbolCount),
    ("memberIds", Json.ofStrings c.memberIds)]

/-- The names of the fields, in their order. -/
def fieldNames : List (List String) :=
  [["id"], ["name"], ["keywords"], ["cohesion"], ["symbolCount"], ["memberIds"]]

/-- Reads a community. -/
def ofJson? (j : Json) : Option Community := do
  let r ← j.record? fieldNames
  some {
    id := ← r.required 0 Json.str?
    name := ← r.required 1 Json.str?
    keywords := ← r.required 2 (Json.list? Json.str?)
    cohesion := ← r.required 3 Json.float?
    symbolCount := ← r.required 4 (Json.natBelow? countBound)
    memberIds := ← r.required 5 (Json.list? Json.str?) }

end Community

namespace Flow

/-- The record of a flow. -/
def toJson (f : Flow) : Json :=
  .obj [("id", .str f.id), ("name", .str f.name), ("entryPoint", .str f.entryPoint),
    ("terminalPoint", .str f.terminalPoint), ("steps", Json.ofStrings f.steps),
    ("stepCount", Json.ofNat f.stepCount), ("crossCommunity", .bool f.crossCommunity)]

/-- The names of the fields, in their order. -/
def fieldNames : List (List String) :=
  [["id"], ["name"], ["entryPoint"], ["terminalPoint"], ["steps"], ["stepCount"],
    ["crossCommunity"]]

/-- Reads a flow. -/
def ofJson? (j : Json) : Option Flow := do
  let r ← j.record? fieldNames
  some {
    id := ← r.required 0 Json.str?
    name := ← r.required 1 Json.str?
    entryPoint := ← r.required 2 Json.str?
    terminalPoint := ← r.required 3 Json.str?
    steps := ← r.required 4 (Json.list? Json.str?)
    stepCount := ← r.required 5 (Json.natBelow? countBound)
    crossCommunity := ← r.required 6 Json.bool? }

end Flow

namespace GraphCounts

/-- The record of the counts of a graph. -/
def toJson (s : GraphCounts) : Json :=
  .obj [("totalNodes", Json.ofNat s.totalNodes), ("totalEdges", Json.ofNat s.totalEdges),
    ("nodesByType", .obj (s.nodesByKind.map fun (k, n) => (k.name, Json.ofNat n))),
    ("edgesByType", .obj (s.edgesByKind.map fun (k, n) => (k.name, Json.ofNat n))),
    ("languages", .obj (s.languages.map fun (l, n) => (l, Json.ofNat n))),
    ("communities", Json.ofNat s.communities), ("processes", Json.ofNat s.flows)]

end GraphCounts

namespace RepoGraph

/-- The fields of the record of a graph. -/
def toFields (g : RepoGraph) : List (String × Json) :=
  [("owner", .str g.owner), ("name", .str g.name), ("branch", .str g.branch),
    ("nodes", .arr (g.nodes.map Node.toJson)), ("edges", .arr (g.edges.map Edge.toJson)),
    ("communities", .arr (g.communities.map Community.toJson)),
    ("processes", .arr (g.flows.map Flow.toJson))]

/-- The record of a graph. -/
def toJson (g : RepoGraph) : Json :=
  .obj g.toFields

end RepoGraph

end CodeAtlas
