import CodeAtlas.Flow.Entry
import CodeAtlas.Flow.Trace
import CodeAtlas.Clustering.Communities

/-!
Flows: the longest paths of calls from the best entry points. Of the paths with the same ends the
first is kept, and a path whose nodes all lie on a longer kept one is left out.
-/

namespace CodeAtlas

namespace Flows

open FlowTrace

/-- How many flows a graph has at most. -/
def maxFlows : Nat := 75

/-- The order of lists of ids: by the first difference, a beginning before what goes on. -/
def idsBefore : List String → List String → Bool
  | [], _ => true
  | _ :: _, [] => false
  | a :: as, b :: bs => if a < b then true else if b < a then false else idsBefore as bs

/-- The order of paths: the longer first, then by their ids. -/
def pathBefore (ix : Adjacency) (a b : Path) : Bool :=
  if b.length < a.length then true
  else if a.length < b.length then false
  else idsBefore (a.map ix.idAt) (b.map ix.idAt)

/-- The first and the last position of a path. -/
def ends (path : Path) : Nat × Nat :=
  (path.headD 0, path.getLastD 0)

/-- Whether a path is longer than another and passes through all its positions. -/
def subsumes (longer path : Path) : Bool :=
  decide (path.length < longer.length) && path.all longer.contains

/-- Keeps of some sorted paths those that say something new; `kept` holds the earlier ones,
backwards. -/
def keepDistinct (kept : List Path) : List Path → List Path
  | [] => kept.reverse
  | path :: rest =>
    if kept.any fun k => ends k == ends path then keepDistinct kept rest
    else if kept.any fun k => subsumes k path then keepDistinct kept rest
    else keepDistinct (path :: kept) rest

/-- The paths that say something new, the longest first. -/
def distinctPaths (ix : Adjacency) (paths : List Path) : List Path :=
  keepDistinct [] (paths.mergeSort (pathBefore ix))

/-- Whether the ids belong to more than one community, those in none apart. -/
def crosses (communityOf : String → Option String) (ids : List String) : Bool :=
  match ids.filterMap communityOf with
  | [] => false
  | first :: rest => rest.any (· ≠ first)

/-- The flow along a path, with its number. -/
def ofPath (ix : Adjacency) (communityOf : String → Option String) (number : Nat)
    (path : Path) : Flow :=
  let label (position : Nat) : String := ((ix.node? position).map Node.label).getD ""
  let steps := path.map ix.idAt
  let (first, last) := ends path
  { id := "process:" ++ toString number
    name := label first ++ " → " ++ label last
    entryPoint := ix.idAt first
    terminalPoint := ix.idAt last
    steps
    stepCount := steps.length
    crossCommunity := crosses communityOf steps }

/-- The flows of nodes and edges: the distinct paths from the entry points, as many as may be kept.
-/
def ofParts (nodes : List Node) (edges : List Edge) (communities : List Community) : List Flow :=
  let ix := Adjacency.ofParts nodes edges
  let paths := (EntryPoint.top ix).flatMap fun (entry, _) => pathsFrom ix entry
  let found := Communities.membership communities
  ((distinctPaths ix paths).take maxFlows).zipIdx.map fun (path, n) => ofPath ix (found[·]?) n path

end Flows

end CodeAtlas
