import CodeAtlas.Graph.Node
import CodeAtlas.Graph.Edge
import CodeAtlas.Graph.Structure
import CodeAtlas.Text.Tally

/-!
The graph of one state of a repository, and the counts that summarise it.
-/

namespace CodeAtlas

/-- The nodes, edges, communities and flows of a repository at a branch. -/
structure RepoGraph where
  owner : String
  name : String
  branch : String
  nodes : List Node
  edges : List Edge
  communities : List Community
  flows : List Flow
  deriving Repr, Inhabited

/-- Counts of a graph by kind; a kind without members is left out. -/
structure GraphCounts where
  totalNodes : Nat
  totalEdges : Nat
  nodesByKind : List (NodeKind × Nat)
  edgesByKind : List (EdgeKind × Nat)
  /-- The number of files in each language. -/
  languages : List (String × Nat)
  communities : Nat
  flows : Nat
  deriving Repr, Inhabited

namespace RepoGraph

/-- The name under which the repository is known: owner and name. -/
def key (g : RepoGraph) : String :=
  g.owner ++ "/" ++ g.name

/-- The nodes that are no files. -/
def symbols (g : RepoGraph) : List Node :=
  g.nodes.filter (! ·.isFile)

/-- The kinds that occur, each with its count. -/
def countKinds {κ α : Type} [BEq κ] (kinds : List κ) (kindOf : α → κ) (items : List α) :
    List (κ × Nat) :=
  kinds.filterMap fun k =>
    let n := items.countP fun a => kindOf a == k
    if n = 0 then none else some (k, n)

/-- The counts of a graph. -/
def stats (g : RepoGraph) : GraphCounts where
  totalNodes := g.nodes.length
  totalEdges := g.edges.length
  nodesByKind := countKinds NodeKind.all Node.kind g.nodes
  edgesByKind := countKinds EdgeKind.all Edge.kind g.edges
  languages := Text.tally ((g.nodes.filter Node.isFile).map Node.language)
  communities := g.communities.length
  flows := g.flows.length

end RepoGraph

end CodeAtlas
