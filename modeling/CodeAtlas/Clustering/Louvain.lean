import CodeAtlas.Clustering.Weights

/-!
Clustering by modularity, in the manner of Louvain. Nodes start alone; one by one, each moves to the
neighbouring cluster where it gains most, until a pass moves none. Then every cluster becomes a node
of a coarser graph and the same is done there, until a level improves nothing.
-/

namespace CodeAtlas.Clustering

variable {α : Type} [Scalar α]

/-- An undirected edge with a weight. -/
structure WeightedEdge (α : Type) where
  a : Nat
  b : Nat
  weight : α

/-- An undirected weighted graph: neighbours, weights of the loops at the nodes, degrees, and the
sum of the degrees. -/
structure WeightedGraph (α : Type) where
  neighbours : Array (List (Nat × α))
  loops : Array α
  degree : Array α
  total : α

/-- How many levels of clusters are made at most. -/
def mostLevels : Nat := 16

/-- The passes over one level at most. -/
def mostPasses : Nat := 50

namespace WeightedGraph

/-- Adds an edge to the lists of neighbours. -/
def link (neighbours : Array (List (Nat × α))) (e : WeightedEdge α) : Array (List (Nat × α)) :=
  (neighbours.modify e.a ((e.b, e.weight) :: ·)).modify e.b ((e.a, e.weight) :: ·)

/-- Adds an edge to the degrees of its ends. -/
def addDegree (degree : Array α) (e : WeightedEdge α) : Array α :=
  (degree.modify e.a (· + e.weight)).modify e.b (· + e.weight)

/-- The graph with the given edges between its nodes and loops at them. -/
def make (edges : List (WeightedEdge α)) (loops : Array α) : WeightedGraph α :=
  let degree := edges.foldl addDegree (loops.map (Scalar.ofNat 2 * ·))
  { neighbours := (edges.foldl link (loops.map fun _ => [])).map List.reverse
    loops
    degree
    total := Scalar.sum degree.toList }

/-- How many nodes a graph has. -/
def size (g : WeightedGraph α) : Nat :=
  g.loops.size

/-- The degree of a node. -/
def degreeOf (g : WeightedGraph α) (node : Nat) : α :=
  g.degree.getD node Scalar.zero

end WeightedGraph

/-- The cluster of each node, the sum of the degrees in each cluster, and whether a node has moved
since the pass began and since the level began. -/
structure Moving (α : Type) where
  cluster : Array Nat
  sigma : Array α
  moved : Bool
  improved : Bool

namespace Moving

/-- The state in which each node is a cluster of its own. -/
def start (g : WeightedGraph α) : Moving α :=
  ⟨Array.range g.size, g.degree, false, false⟩

/-- The cluster of a node. -/
def clusterOf (s : Moving α) (node : Nat) : Nat :=
  s.cluster.getD node node

end Moving

/-- The weights between a node and the clusters around it. -/
def linksOf (g : WeightedGraph α) (s : Moving α) (node : Nat) : Weights Nat α :=
  (g.neighbours.getD node []).foldl
    (fun links (neighbour, w) => Weights.add (s.clusterOf neighbour) w links) []

/-- What a node of degree `degree` gains in a cluster whose degrees sum to `sigma` and to which it
is linked with weight `inside`. -/
def gain (resolution total degree sigma inside : α) : α :=
  inside - resolution * sigma * degree / total

/-- The least difference that counts as a gain. -/
def gainThreshold : α :=
  Scalar.ofDecimal 1 12

/-- The best cluster for a node, among one found so far and the candidates; a later one has to be
better by more than the threshold. -/
def bestCluster (gainOf : Nat → α → α) : Nat × α → Weights Nat α → Nat × α
  | best, [] => best
  | best, (candidate, inside) :: rest =>
    let g := gainOf candidate inside
    let better := Scalar.less (best.2 + gainThreshold) g
    bestCluster gainOf (if better then (candidate, g) else best) rest

/-- Takes a node out of its cluster and puts it where it gains most. -/
def visit (g : WeightedGraph α) (resolution : α) (s : Moving α) (node : Nat) : Moving α :=
  let current := s.clusterOf node
  let degree := g.degreeOf node
  let links := linksOf g s node
  let sigma := s.sigma.modify current (· - degree)
  let gainOf (c : Nat) (inside : α) : α :=
    gain resolution g.total degree (sigma.getD c Scalar.zero) inside
  let (best, _) := bestCluster gainOf (current, gainOf current (Weights.weight current links)) links
  { cluster := s.cluster.setIfInBounds node best
    sigma := sigma.modify best (· + degree)
    moved := s.moved || best != current
    improved := s.improved || best != current }

/-- Visits all nodes in turn. -/
def pass (g : WeightedGraph α) (resolution : α) (s : Moving α) : Moving α :=
  (List.range g.size).foldl (visit g resolution) { s with moved := false }

/-- Passes until none moves a node, at most the given number of them. -/
def passes (g : WeightedGraph α) (resolution : α) : Nat → Moving α → Moving α
  | 0, s => s
  | n + 1, s =>
    let s := pass g resolution s
    if s.moved then passes g resolution n s else s

/-- Moves the nodes of a level, each alone at first. -/
def settle (g : WeightedGraph α) (resolution : α) : Moving α :=
  passes g resolution mostPasses (Moving.start g)

/-- The distinct numbers of a list, in order of their first occurrence; `found` holds those that
have been met, backwards. -/
def firstOccurrences (found : List Nat) : List Nat → List Nat
  | [] => found.reverse
  | c :: rest =>
    if found.contains c then firstOccurrences found rest else firstOccurrences (c :: found) rest

/-- The sums of a coarser level that are being collected: its loops and the edges between its
nodes. -/
structure Merging (α : Type) where
  loops : Array α
  between : Weights Pair α

/-- Adds an edge of the finer level, seen from the lesser of its ends. -/
def mergeEdge (cluster : Array Nat) (node : Nat) (s : Merging α) (edge : Nat × α) : Merging α :=
  if edge.1 < node then s
  else
    let c := cluster.getD node 0
    let d := cluster.getD edge.1 0
    if c = d then { s with loops := s.loops.modify c (· + edge.2) }
    else { s with between := Weights.add (Pair.of c d) edge.2 s.between }

/-- Adds a node of the finer level. -/
def mergeNode (g : WeightedGraph α) (cluster : Array Nat) (s : Merging α) (node : Nat) :
    Merging α :=
  let s :=
    { s with loops := s.loops.modify (cluster.getD node 0) (· + g.loops.getD node Scalar.zero) }
  (g.neighbours.getD node []).foldl (mergeEdge cluster node) s

/-- The graph whose nodes are the clusters, of which there are `count`. -/
def coarsen (g : WeightedGraph α) (cluster : Array Nat) (count : Nat) : WeightedGraph α :=
  let s := (List.range g.size).foldl (mergeNode g cluster)
    ⟨Array.replicate count Scalar.zero, []⟩
  WeightedGraph.make (s.between.map fun (p, w) => ⟨p.first, p.second, w⟩) s.loops

/-- Goes on from a level on which `membership` says which node each node of the first level
is in. -/
def levels (resolution : α) : Nat → WeightedGraph α → Array Nat → Array Nat
  | 0, _, membership => membership
  | n + 1, g, membership =>
    let s := settle g resolution
    if s.improved then
      let distinct := firstOccurrences [] s.cluster.toList
      let compact := s.cluster.map fun c => distinct.idxOf c
      levels resolution n (coarsen g compact distinct.length)
        (membership.map fun m => compact.getD m 0)
    else membership

/-- Whether an edge can be clustered: its ends are nodes, its weight is finite and not negative. -/
def WeightedEdge.isSound (n : Nat) (e : WeightedEdge α) : Bool :=
  decide (e.a < n) && decide (e.b < n) && Scalar.isFinite e.weight &&
    !Scalar.less e.weight Scalar.zero

/-- The cluster of each of `n` nodes, or none where the weights cannot be compared. -/
def cluster? (n : Nat) (edges : List (WeightedEdge α)) (resolution : α) : Option (Array Nat) :=
  if !edges.all (WeightedEdge.isSound n) then none
  else
    let g := WeightedGraph.make edges (Array.replicate n Scalar.zero)
    if Scalar.isFinite g.total && Scalar.less Scalar.zero g.total then
      some (levels resolution mostLevels g (Array.range n))
    else none

end CodeAtlas.Clustering
