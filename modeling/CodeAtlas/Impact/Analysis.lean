import CodeAtlas.Graph.Adjacency

/-!
What a change affects. From the changed nodes the edges of dependence are followed backwards, three
steps far; a node belongs to the step in which it is first reached. How many nodes the first step
reaches tells the risk of the change.
-/

namespace CodeAtlas

/-- How risky a change is. -/
inductive Risk where
  | low
  | medium
  | high
  | critical
  deriving Repr, DecidableEq, Inhabited

namespace Risk

/-- The risk of a change with so many direct dependents. -/
def ofDirectDependents (count : Nat) : Risk :=
  if 10 < count then critical
  else if 5 < count then high
  else if 2 < count then medium
  else low

/-- The name of a level of risk. -/
def name : Risk → String
  | low => "LOW"
  | medium => "MEDIUM"
  | high => "HIGH"
  | critical => "CRITICAL"

/-- The levels, from the lowest to the highest. -/
def all : List Risk :=
  [low, medium, high, critical]

/-- The level of risk with a name. -/
def ofName? (s : String) : Option Risk :=
  all.find? (·.name == s)

/-- Every risk is found under its own name. -/
theorem ofName?_name (r : Risk) : ofName? r.name = some r := by
  cases r <;> decide

/-- The place of a level in their order. -/
def rank (l : Risk) : Nat :=
  all.idxOf l

end Risk

/-- A node that a change affects, and the edge by which it was reached. -/
structure Affected where
  id : String
  label : String
  kind : NodeKind
  filePath : String
  via : EdgeKind
  confidence : Float
  deriving Repr, Inhabited

/-- What a change affects, step by step. -/
structure Impact where
  changed : List String
  /-- Changed ids that no node has. -/
  unknown : List String
  depth1 : List Affected
  depth2 : List Affected
  depth3 : List Affected
  risk : Risk
  /-- Flows with a step among the changed nodes or those of the first two steps. -/
  affectedFlows : List Flow
  deriving Repr, Inhabited

namespace Impact

/-- The kinds of edges whose source depends on the target. -/
def dependencyKinds : List EdgeKind :=
  [.calls, .imports, .extends]

/-- Keeps the nodes that have not been reached before, each with the first edge to it. -/
def newlyReached (seen : List Nat) : List (Nat × Edge) → List (Nat × Edge) × List Nat
  | [] => ([], seen)
  | (source, e) :: rest =>
    if seen.contains source then newlyReached seen rest
    else
      let (reached, seen) := newlyReached (source :: seen) rest
      ((source, e) :: reached, seen)

/-- What is newly reached is reached once, and had not been reached before. -/
theorem newlyReached_new (seen : List Nat) (found : List (Nat × Edge)) :
    ((newlyReached seen found).1.map (·.1)).Nodup ∧
      ∀ position ∈ (newlyReached seen found).1.map (·.1), position ∉ seen := by
  fun_induction newlyReached seen found with
  | case1 => simp
  | case2 => assumption
  | case3 seen source e rest new reached seen' reads ih =>
    rw [reads] at ih
    refine ⟨?_, ?_⟩
    · simp only [List.map_cons, List.nodup_cons]
      exact ⟨fun member => ih.2 source member List.mem_cons_self, ih.1⟩
    · intro position member
      rcases List.mem_cons.mp member with same | later
      · subst same
        simpa using new
      · exact fun old => ih.2 position later (List.mem_cons_of_mem _ old)

/-- Afterwards what had been reached and what is newly reached counts as reached. -/
theorem mem_newlyReached_seen (seen : List Nat) (found : List (Nat × Edge)) (position : Nat) :
    position ∈ (newlyReached seen found).2 ↔
      position ∈ seen ∨ position ∈ (newlyReached seen found).1.map (·.1) := by
  fun_induction newlyReached seen found with
  | case1 => simp
  | case2 => assumption
  | case3 seen source e rest new reached seen' reads ih =>
    rw [reads] at ih
    simp only at ih
    simp only [ih, List.mem_cons, List.map_cons]
    grind

/-- The nodes that one more step reaches, with all that have been reached then. -/
def step (ix : Adjacency) (seen frontier : List Nat) : List (Nat × Edge) × List Nat :=
  newlyReached seen (frontier.flatMap fun position => ix.incoming position dependencyKinds)

/-- The nodes that each of a number of steps reaches. -/
def tiers (ix : Adjacency) : Nat → List Nat → List Nat → List (List (Nat × Edge))
  | 0, _, _ => []
  | n + 1, seen, frontier =>
    let (reached, seen) := step ix seen frontier
    reached :: tiers ix n seen (reached.map (·.1))

/-- The node at a position that was reached by an edge. -/
def affected? (ix : Adjacency) (reached : Nat × Edge) : Option Affected :=
  (ix.node? reached.1).map fun n =>
    ⟨n.id, n.label, n.kind, n.filePath, reached.2.kind, reached.2.confidence⟩

/-- What the change of some ids affects. -/
def ofChange (changed : List String) (nodes : List Node) (edges : List Edge) (flows : List Flow) :
    Impact :=
  let ix := Adjacency.ofParts nodes edges
  let changed := changed.eraseDups
  let start := changed.filterMap ix.position?
  let reached := (tiers ix 3 start start).map fun tier => tier.filterMap (affected? ix)
  let depth (n : Nat) : List Affected := (reached[n]?).getD []
  let touched := changed ++ (depth 0).map Affected.id ++ (depth 1).map Affected.id
  { changed
    unknown := changed.filter fun id => (ix.position? id).isNone
    depth1 := depth 0
    depth2 := depth 1
    depth3 := depth 2
    risk := Risk.ofDirectDependents (depth 0).length
    affectedFlows := flows.filter fun f => f.steps.any touched.contains }

/-- What the change of some ids affects in a graph. -/
def ofChangeIn (changed : List String) (g : RepoGraph) : Impact :=
  ofChange changed g.nodes g.edges g.flows

/-- The number of nodes that a change affects. -/
def total (i : Impact) : Nat :=
  i.depth1.length + i.depth2.length + i.depth3.length

end Impact

end CodeAtlas
