import CodeAtlas.Clustering.Louvain
import CodeAtlas.Graph.Basic
import CodeAtlas.Text.Identifier
import Std.Data.HashMap

/-!
Communities of symbols. Two symbols are joined by calls and inheritance of enough certainty; the
sums of the certainties are the weights by which the symbols are clustered. Symbols that stay alone
form one community of their own, so that every symbol is in exactly one.
-/

namespace CodeAtlas

namespace Communities

open Clustering

/-- The id of the community of the symbols that are in no cluster. -/
def otherId : String :=
  "community:other"

/-- The least certainty of an edge that joins two symbols. -/
def leastCertainty : Float := 0.5

/-- The number of symbols above which a graph counts as large. -/
def largeGraph : Nat := 500

/-- The resolution for graphs that are not large, and for large ones. -/
def resolution (symbols : Nat) : Float :=
  if largeGraph < symbols then 1.5 else 1.0

/-- How many keywords a community has at most. -/
def mostKeywords : Nat := 5

/-- Whether an edge joins its ends: it is of one of three kinds and certain enough. -/
def joins (e : Edge) : Bool :=
  [EdgeKind.calls, .extends, .implements].contains e.kind && !decide (e.confidence < leastCertainty)

/-- The position of the last symbol with each id. -/
def positions (symbols : List Node) : Std.HashMap String Nat :=
  symbols.zipIdx.foldl (fun found (n, i) => found.insert n.id i) {}

/-- The pair of symbols that an edge joins. -/
def pair? (position? : String → Option Nat) (e : Edge) : Option Pair :=
  if joins e then
    match position? e.source, position? e.target with
    | some a, some b => if a = b then none else some (Pair.of a b)
    | _, _ => none
  else none

/-- The joined pairs, each with the sum of the certainties. -/
def pairWeights (position? : String → Option Nat) (edges : List Edge) : Weights Pair Float :=
  edges.foldl (fun weights e =>
    match pair? position? e with
    | some p => Weights.add p e.confidence weights
    | none => weights) []

/-- The words of the members' names, the most frequent first. -/
def keywords (members : List Node) : List String :=
  let words := members.flatMap fun n =>
    (Text.nameWords n.label).filter fun word => 2 < word.length
  (((Text.tally words).mergeSort fun a b => b.2 ≤ a.2).take mostKeywords).map (·.1)

/-- The string that occurs most often, the first of several in order. -/
def mostFrequent (counts : List (String × Nat)) : String :=
  (counts.foldl (fun best c => if best.2 < c.2 then c else best) ("", 0)).1

/-- The name of a community: where most members live, and its first keyword. -/
def nameOf (members : List Node) (keywords : List String) : String :=
  let base := Text.fileName (mostFrequent (Text.tally (members.map Node.directory)))
  (if base = "" then "root" else base) ++ "/" ++ keywords.headD "misc"

/-- The share of the pairs of members that are joined. -/
def cohesion (members : List Nat) (pairs : List Pair) : Float :=
  let n := members.length
  if n < 2 then 1.0
  else
    let inside := pairs.countP fun p => members.contains p.first && members.contains p.second
    Edge.clampUnit (Float.ofNat inside / Float.ofNat (n * (n - 1) / 2))

/-- The community of all symbols, where nothing joins any two. -/
def single (symbols : List Node) : Community :=
  let words := keywords symbols
  { id := "community:0"
    name := nameOf symbols words
    keywords := words
    cohesion := 1.0
    symbolCount := symbols.length
    memberIds := symbols.map Node.id }

/-- The members of each cluster, in order of the clusters' numbers. -/
def clusters (assignment : Array Nat) : List (List Nat) :=
  let last := assignment.foldl max 0
  let groups := assignment.toList.zipIdx.foldr
    (fun (cluster, member) groups => groups.modify cluster (member :: ·))
    (Array.replicate (last + 1) [])
  groups.toList.filter (! ·.isEmpty)

/-- The symbols at positions. -/
def members (symbols : Array Node) (group : List Nat) : List Node :=
  group.filterMap (symbols[·]?)

/-- A community of the symbols at some positions. -/
def ofGroup (symbols : Array Node) (pairs : List Pair) (id : String) (name? : Option String)
    (group : List Nat) : Community :=
  let nodes := members symbols group
  let words := keywords nodes
  { id
    name := name?.getD (nameOf nodes words)
    keywords := words
    cohesion := cohesion group pairs
    symbolCount := group.length
    memberIds := nodes.map Node.id }

/-- The id of the first symbol of a group. -/
def firstId (symbols : Array Node) (group : List Nat) : String :=
  (((group.head?).bind (symbols[·]?)).map Node.id).getD ""

/-- The order of communities: the larger first, then by the first member's id. -/
def groupBefore (symbols : Array Node) (a b : List Nat) : Bool :=
  if b.length < a.length then true
  else if a.length < b.length then false
  else decide (firstId symbols a ≤ firstId symbols b)

/-- The communities of a clustering: clusters of two or more, then the other symbols together. -/
def ofAssignment (symbols : Array Node) (pairs : List Pair) (assignment : Array Nat) :
    List Community :=
  let groups := clusters assignment
  let kept := (groups.filter (2 ≤ ·.length)).mergeSort (groupBefore symbols)
  let other := (groups.filter (·.length < 2)).flatten.mergeSort (· ≤ ·)
  (kept.zipIdx.map fun (group, n) =>
      ofGroup symbols pairs ("community:" ++ toString n) none group) ++
    if other.isEmpty then [] else [ofGroup symbols pairs otherId (some "Other") other]

/-- The communities of the symbols among some nodes. -/
def ofParts (nodes : List Node) (edges : List Edge) : List Community :=
  let symbols := nodes.filter (! ·.isFile)
  if symbols.isEmpty then []
  else
    let found := positions symbols
    let weights := pairWeights (found[·]?) edges
    if weights.isEmpty then [single symbols]
    else
      let weighted := weights.map fun (p, w) => (⟨p.first, p.second, w⟩ : WeightedEdge Float)
      match cluster? symbols.length weighted (resolution symbols.length) with
      | some assignment => ofAssignment symbols.toArray (weights.map (·.1)) assignment
      | none => [single symbols]

/-- The community of each member; a later community wins. -/
def membership (communities : List Community) : Std.HashMap String String :=
  communities.foldl (fun found c => c.memberIds.foldl (fun found m => found.insert m c.id) found) {}

/-- Writes its community's id onto each symbol. -/
def assign (communities : List Community) (nodes : List Node) : List Node :=
  let found := membership communities
  nodes.map fun n =>
    if n.isFile then n else { n with communityId := some ((found[n.id]?).getD otherId) }

end Communities

end CodeAtlas
