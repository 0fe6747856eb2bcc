import CodeAtlas.Graph.Basic
import Std.Data.HashMap

/-!
Nodes by position. The position of an id is that of the first node that has it; an edge belongs to
the structure if both its ends have a position. The neighbours of a node are kept per node, in the
order of the edges.
-/

namespace CodeAtlas

/-- The position of the first node with each id. -/
def positionsById (nodes : List Node) : Std.HashMap String Nat :=
  nodes.zipIdx.foldl (fun found (n, i) => found.insertIfNew n.id i) {}

/-- An edge between two positions. -/
structure Link where
  source : Nat
  target : Nat
  edge : Edge
  deriving Inhabited

/-- Nodes by position, with the edges that leave and enter each. -/
structure Adjacency where
  nodes : Array Node
  positions : Std.HashMap String Nat
  outgoingLinks : Array (List Link)
  incomingLinks : Array (List Link)

namespace Adjacency

/-- The edges both of whose ends are known, in order. -/
def linksOf (positions : Std.HashMap String Nat) (edges : List Edge) : List Link :=
  edges.filterMap fun e =>
    match positions[e.source]?, positions[e.target]? with
    | some source, some target => some ⟨source, target, e⟩
    | _, _ => none

/-- Links by one of their ends, those of each end in order. -/
def groupBy (key : Link → Nat) (size : Nat) (links : List Link) : Array (List Link) :=
  links.foldr (fun l groups => groups.modify (key l) (l :: ·)) (Array.replicate size [])

/-- The nodes and edges of two lists. -/
def ofParts (nodes : List Node) (edges : List Edge) : Adjacency :=
  let positions := positionsById nodes
  let links := linksOf positions edges
  ⟨nodes.toArray, positions, groupBy Link.source nodes.length links,
    groupBy Link.target nodes.length links⟩

/-- The index of a graph. -/
def ofGraph (g : RepoGraph) : Adjacency :=
  ofParts g.nodes g.edges

/-- How many nodes there are. -/
def size (ix : Adjacency) : Nat :=
  ix.nodes.size

/-- The position of the node with an id. -/
def position? (ix : Adjacency) (id : String) : Option Nat :=
  ix.positions[id]?

/-- The node at a position. -/
def node? (ix : Adjacency) (position : Nat) : Option Node :=
  ix.nodes[position]?

/-- The id of the node at a position. -/
def idAt (ix : Adjacency) (position : Nat) : String :=
  ((ix.node? position).map Node.id).getD ""

/-- The node with an id. -/
def find? (ix : Adjacency) (id : String) : Option Node :=
  (ix.position? id).bind ix.node?

/-- The targets of the edges of some kinds that leave a position, in order of the edges. -/
def outgoing (ix : Adjacency) (position : Nat) (kinds : List EdgeKind) : List (Nat × Edge) :=
  (((ix.outgoingLinks[position]?).getD []).filter fun l => kinds.contains l.edge.kind).map
    fun l => (l.target, l.edge)

/-- The sources of the edges of some kinds that enter a position, in order of the edges. -/
def incoming (ix : Adjacency) (position : Nat) (kinds : List EdgeKind) : List (Nat × Edge) :=
  (((ix.incomingLinks[position]?).getD []).filter fun l => kinds.contains l.edge.kind).map
    fun l => (l.source, l.edge)

/-- The position of the file in which a node is declared; a file declares itself. -/
def fileOf? (ix : Adjacency) (position : Nat) : Option Nat :=
  match ix.node? position with
  | some n => if n.isFile then some position else ix.position? (Node.idOfFile n.filePath)
  | none => none

end Adjacency

end CodeAtlas
