import CodeAtlas.Impact.Markdown

/-!
A summary of a whole graph: its counts, its largest communities, its longest flows and the symbols
that are called most.
-/

namespace CodeAtlas

/-- A symbol with the number of calls that lead to it. -/
structure CallCount where
  node : Node
  callers : Nat
  deriving Repr, Inhabited

/-- The summary of a graph. -/
structure Summary where
  repository : String
  branch : String
  stats : GraphCounts
  communities : List Community
  flows : List Flow
  mostCalled : List CallCount
  deriving Repr, Inhabited

namespace Summary

/-- How many communities, flows and called symbols are listed at most. -/
def limit : Nat := 10

/-- The largest items by a measure, those of equal measure in order of their ids. -/
def largest {α : Type} (measure : α → Nat) (id : α → String) (items : List α) : List α :=
  (items.mergeSort fun a b =>
    if measure b < measure a then true
    else if measure a < measure b then false
    else decide (id a ≤ id b)).take limit

/-- The nodes that are called, each with the number of calls. -/
def calledSymbols (g : RepoGraph) : List CallCount :=
  let targets := Text.tally ((g.edges.filter (·.kind == .calls)).map Edge.target)
  g.nodes.filterMap fun n =>
    (targets.find? (·.1 == n.id)).map fun (_, count) => ⟨n, count⟩

/-- The summary of a graph. -/
def ofGraph (g : RepoGraph) : Summary where
  repository := g.key
  branch := g.branch
  stats := g.stats
  communities := largest Community.symbolCount Community.id g.communities
  flows := largest Flow.stepCount Flow.id g.flows
  mostCalled := largest CallCount.callers (fun s => s.node.id) (calledSymbols g)

/-- A line of counts by name, left out where there are none. -/
def countLine (title : String) (counts : List (String × Nat)) : String :=
  if counts.isEmpty then ""
  else
    "- **" ++ title ++ ":** " ++
      ", ".intercalate (counts.map fun (name, n) => name ++ ": " ++ toString n) ++ "\n"

/-- The counts of a graph as a list. -/
def countLines (s : GraphCounts) : String :=
  countLine "Nodes" (s.nodesByKind.map fun (k, n) => (k.name, n)) ++
    countLine "Edges" (s.edgesByKind.map fun (k, n) => (k.name, n)) ++
    countLine "Languages" s.languages

/-- The row of a community. -/
def communityRow (c : Community) : String :=
  "| " ++ c.name ++ " | " ++ toString c.symbolCount ++ " | " ++ Decimal.fixed 2 c.cohesion ++ " |\n"

/-- The line of a flow. -/
def flowEntry (f : Flow) : String :=
  "- " ++ f.name ++ " (" ++ toString f.stepCount ++ " steps)" ++
    (if f.crossCommunity then " (cross-community)" else "") ++ "\n"

/-- The list entry of a called symbol. -/
def calledEntry (s : CallCount) : String :=
  "- **" ++ s.node.label ++ "** " ++ codeSpan s.node.filePath ++ " (" ++ toString s.callers ++
    " callers)\n"

/-- A summary as Markdown. -/
def markdown (o : Summary) : String :=
  "## " ++ o.repository ++ " @ " ++ o.branch ++ "\n\n**" ++ toString o.stats.totalNodes ++
    "** nodes, **" ++ toString o.stats.totalEdges ++ "** edges, **" ++
    toString o.stats.communities ++ "** communities, **" ++ toString o.stats.flows ++
    "** execution flows\n\n" ++ countLines o.stats ++ "\n" ++
    (if o.communities.isEmpty then ""
      else
        "### Communities\n\n| Name | Symbols | Cohesion |\n|------|---------|----------|\n" ++
          String.join (o.communities.map communityRow) ++ "\n") ++
    (if o.flows.isEmpty then ""
      else "### Execution flows\n\n" ++ String.join (o.flows.map flowEntry) ++ "\n") ++
    if o.mostCalled.isEmpty then ""
    else "### Most called\n\n" ++ String.join (o.mostCalled.map calledEntry)

/-- The record of a summary. -/
def toJson (o : Summary) : Json :=
  .obj [("repository", .str o.repository), ("branch", .str o.branch), ("stats", o.stats.toJson),
    ("communities", .arr (o.communities.map fun c =>
      .obj [("id", .str c.id), ("name", .str c.name), ("symbolCount", Json.ofNat c.symbolCount),
        ("cohesion", Json.ofFloat c.cohesion)])),
    ("processes", .arr (o.flows.map fun f =>
      .obj [("id", .str f.id), ("name", .str f.name), ("stepCount", Json.ofNat f.stepCount),
        ("crossCommunity", .bool f.crossCommunity)])),
    ("mostCalled", .arr (o.mostCalled.map fun s =>
      .obj [("id", .str s.node.id), ("label", .str s.node.label),
        ("type", .str s.node.kind.name), ("filePath", .str s.node.filePath),
        ("callers", Json.ofNat s.callers)]))]

end Summary

end CodeAtlas
