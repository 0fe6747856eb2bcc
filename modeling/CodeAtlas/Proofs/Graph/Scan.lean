import CodeAtlas.Proofs.Graph.Adjacency
import CodeAtlas.Proofs.Text.Order
import Mathlib.Data.List.Nodup

/-!
# Nodes and edges by position are plain scans

Whatever nodes and edges there are, with ids that occur several times, edges without a node at an end
and edges from a node to itself, positions are found as a scan of the nodes finds them, and the edges
that leave or enter a position as a scan of the edges does. It does not matter in which order the links
at a position are listed, as long as each tells the number of its edge.
-/

namespace CodeAtlas

/-- Edges are followed out of a position, or back to where they come from. -/
inductive Direction where
  | outgoing
  | incoming

namespace Direction

variable {α : Type}

/-- The end at which an edge is found. -/
def near (source target : α) : Direction → α
  | outgoing => source
  | incoming => target

/-- The end to which an edge is followed. -/
def far (source target : α) : Direction → α
  | outgoing => target
  | incoming => source

end Direction

/-- The position of the first node that has an id. -/
def firstPosition? (nodes : List Node) (id : String) : Option Nat :=
  nodes.findIdx? (·.id == id)

/-- The position of an id is that of a node with the id, and no node before has it. -/
theorem firstPosition?_eq_some_iff {nodes : List Node} {id : String} {i : Nat} :
    firstPosition? nodes id = some i ↔ (∃ n, nodes[i]? = some n ∧ n.id = id) ∧
      ∀ j < i, ∀ n, nodes[j]? = some n → n.id ≠ id := by
  rw [firstPosition?, List.findIdx?_eq_some_iff_getElem]
  constructor
  · rintro ⟨inside, here, before⟩
    refine ⟨⟨nodes[i], List.getElem?_eq_getElem inside, beq_iff_eq.mp here⟩, ?_⟩
    intro j less n there
    obtain ⟨insideToo, rfl⟩ := List.getElem?_eq_some_iff.mp there
    simpa using before j less
  · rintro ⟨⟨n, here, same⟩, before⟩
    obtain ⟨inside, rfl⟩ := List.getElem?_eq_some_iff.mp here
    refine ⟨inside, beq_iff_eq.mpr same, ?_⟩
    intro j less
    have insideToo := Nat.lt_trans less inside
    simpa using before j less nodes[j] (List.getElem?_eq_getElem insideToo)

/-- The edges of some kinds whose near end means a position and whose far end means any, in their
order, each with the position that its far end means. -/
def scanEdges (nodes : List Node) (d : Direction) (i : Nat) (kinds : List EdgeKind)
    (edges : List Edge) : List (Nat × Edge) :=
  edges.filterMap fun e =>
    if e.kind ∈ kinds ∧ firstPosition? nodes (d.near e.source e.target) = some i then
      (firstPosition? nodes (d.far e.source e.target)).map (·, e)
    else none

/-- A link between two positions, which knows its edge by number. -/
structure NumberedLink where
  source : Nat
  target : Nat
  number : Nat

namespace NumberedLink

/-- The links of the edges both of whose ends are known. -/
def ofParts (nodes : List Node) (edges : List Edge) : List NumberedLink :=
  edges.zipIdx.filterMap fun (e, number) =>
    (firstPosition? nodes e.source).bind fun i =>
      (firstPosition? nodes e.target).map fun j => ⟨i, j, number⟩

/-- The links that are found at a position. -/
def foundAt (d : Direction) (i : Nat) (links : List NumberedLink) : List NumberedLink :=
  links.filter fun l => d.near l.source l.target == i

/-- Whether the edge of a link is of one of some kinds. -/
def isOf (kinds : List EdgeKind) (edges : List Edge) (l : NumberedLink) : Bool :=
  (edges[l.number]?).any (kinds.contains ·.kind)

/-- The far end of a link, with its edge. -/
def follow (d : Direction) (edges : List Edge) (l : NumberedLink) : Option (Nat × Edge) :=
  (edges[l.number]?).map (d.far l.source l.target, ·)

/-- Where links whose edges are of some kinds lead, in order of the edges. -/
def neighbours (d : Direction) (kinds : List EdgeKind) (edges : List Edge)
    (links : List NumberedLink) : List (Nat × Edge) :=
  ((links.filter (isOf kinds edges)).mergeSort fun l m => decide (l.number ≤ m.number)).filterMap
    (follow d edges)

section

variable {nodes : List Node} {edges : List Edge} {kinds : List EdgeKind} {d : Direction} {i : Nat}

/-- Links are numbered in the order of their edges. -/
theorem ofParts_ordered (nodes : List Node) (edges : List Edge) :
    (ofParts nodes edges).Pairwise fun l m => l.number < m.number := by
  unfold ofParts
  rw [List.pairwise_filterMap]
  have numbers : edges.zipIdx.Pairwise fun x y => x.2 < y.2 := by
    rw [← List.pairwise_map (f := Prod.snd), List.zipIdx_map_snd]
    exact List.pairwise_lt_range'
  refine numbers.imp ?_
  intro x y less l ofX m ofY
  obtain ⟨_, -, ofX⟩ := Option.bind_eq_some_iff.mp ofX
  obtain ⟨_, -, rfl⟩ := Option.map_eq_some_iff.mp ofX
  obtain ⟨_, -, ofY⟩ := Option.bind_eq_some_iff.mp ofY
  obtain ⟨_, -, rfl⟩ := Option.map_eq_some_iff.mp ofY
  exact less

theorem foundAt_ordered : (foundAt d i (ofParts nodes edges)).Pairwise
    fun l m => l.number < m.number := by
  unfold foundAt
  exact (ofParts_ordered nodes edges).filter _

/-- Links that are listed in any order are followed in the order of their edges. -/
theorem neighbours_perm {links ordered : List NumberedLink} (perm : links.Perm ordered)
    (order : ordered.Pairwise fun l m => l.number < m.number) :
    neighbours d kinds edges links =
      (ordered.filter (isOf kinds edges)).filterMap (follow d edges) := by
  have same := perm.filter (isOf kinds edges)
  have kept := order.filter (isOf kinds edges)
  generalize ordered.filter (isOf kinds edges) = wanted at same kept
  have sorted : wanted.Pairwise fun l m => decide (l.number ≤ m.number) = true :=
    kept.imp fun less => decide_eq_true (Nat.le_of_lt less)
  have numbers : (wanted.map NumberedLink.number).Nodup :=
    List.pairwise_map.mpr (kept.imp Nat.ne_of_lt)
  rw [neighbours, ← List.mergeSort_of_pairwise sorted]
  congr 1
  apply Text.mergeSort_eq_of_perm (by grind) (by grind) same
  intro l inside m inside' before after
  exact List.inj_on_of_nodup_map numbers (same.mem_iff.mp inside) (same.mem_iff.mp inside')
    (Nat.le_antisymm (of_decide_eq_true before) (of_decide_eq_true after))

/-- What the links give is given by the edges, each with its number. -/
theorem filterMap_ofParts {β : Type} (nodes : List Node) (edges : List Edge)
    (give : NumberedLink → Option β) : (ofParts nodes edges).filterMap give =
      edges.zipIdx.filterMap fun x =>
        (firstPosition? nodes x.1.source).bind fun i =>
          (firstPosition? nodes x.1.target).bind fun j => give ⟨i, j, x.2⟩ := by
  rw [ofParts, List.filterMap_filterMap]
  apply List.filterMap_congr
  rintro ⟨e, number⟩ -
  dsimp only
  cases firstPosition? nodes e.source with
  | none => rfl
  | some i => cases firstPosition? nodes e.target <;> rfl

theorem scanEdges_eq : scanEdges nodes d i kinds edges = edges.zipIdx.filterMap fun x =>
    if x.1.kind ∈ kinds ∧ firstPosition? nodes (d.near x.1.source x.1.target) = some i then
      (firstPosition? nodes (d.far x.1.source x.1.target)).map (·, x.1)
    else none := by
  conv_lhs => rw [scanEdges, ← List.zipIdx_map_fst 0 edges, List.filterMap_map]
  rfl

/-- The links at a position lead where a scan of all edges says. -/
theorem foundAt_eq_scan :
    ((foundAt d i (ofParts nodes edges)).filter (isOf kinds edges)).filterMap (follow d edges) =
      scanEdges nodes d i kinds edges := by
  rw [foundAt, List.filter_filter, List.filterMap_filter, filterMap_ofParts, scanEdges_eq]
  apply List.filterMap_congr
  rintro ⟨e, number⟩ member
  have numbered : edges[number]? = some e := by simpa using List.mem_zipIdx_iff_getElem?.mp member
  cases source : firstPosition? nodes e.source with
  | none => cases d <;> simp [Direction.near, Direction.far, source]
  | some s =>
    cases target : firstPosition? nodes e.target with
    | none => cases d <;> simp [Direction.near, Direction.far, source, target]
    | some t =>
      cases d <;>
        simp [Direction.near, Direction.far, isOf, follow, source, target, numbered]

end

end NumberedLink

namespace Adjacency

/-- What is found by position is what plain scans of the nodes and of the edges find. -/
structure Scans (ix : Adjacency) (nodes : List Node) (edges : List Edge) : Prop where
  /-- An id means the position of the first node that has it. -/
  position : ∀ id i, ix.position? id = some i ↔ (∃ n, nodes[i]? = some n ∧ n.id = id) ∧
    ∀ j < i, ∀ n, nodes[j]? = some n → n.id ≠ id
  node : ∀ i, ix.node? i = nodes[i]?
  outgoing : ∀ i kinds, ix.outgoing i kinds = scanEdges nodes .outgoing i kinds edges
  incoming : ∀ i kinds, ix.incoming i kinds = scanEdges nodes .incoming i kinds edges
  /-- What leads from one position to another one comes to that one from the first. -/
  opposite : ∀ i j e kinds, (j, e) ∈ ix.outgoing i kinds ↔ (i, e) ∈ ix.incoming j kinds
  /-- The links at a position, listed in any order, lead to the same neighbours. -/
  listed : ∀ d i kinds links,
    links.Perm (NumberedLink.foundAt d i (NumberedLink.ofParts nodes edges)) →
      NumberedLink.neighbours d kinds edges links = scanEdges nodes d i kinds edges

/-- Nodes and edges by position are what plain scans find, whatever nodes and edges there are. -/
theorem ofParts_scans (nodes : List Node) (edges : List Edge) :
    (ofParts nodes edges).Scans nodes edges := by
  have positions : ∀ id, (ofParts nodes edges).position? id = firstPosition? nodes id :=
    fun id => position?_eq nodes edges id
  constructor
  case position =>
    intro id i
    rw [positions]
    exact firstPosition?_eq_some_iff
  case node =>
    intro i
    simp [node?, ofParts]
  case outgoing =>
    intro i kinds
    simp only [outgoing_eq, positions]
    rfl
  case incoming =>
    intro i kinds
    simp only [incoming_eq, positions]
    rfl
  case opposite =>
    intro i j e kinds
    rw [mem_outgoing, mem_incoming]
  case listed =>
    intro d i kinds links perm
    rw [NumberedLink.neighbours_perm perm NumberedLink.foundAt_ordered]
    exact NumberedLink.foundAt_eq_scan

end Adjacency

end CodeAtlas
