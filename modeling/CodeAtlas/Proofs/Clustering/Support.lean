import CodeAtlas.Proofs.Clustering.Outcomes
import CodeAtlas.Proofs.Clustering.Partition
import Mathlib.Combinatorics.SimpleGraph.Connectivity.Connected

/-!
# Communities are supported by joined pairs

The joined pairs of symbols are the edges of a graph. Clustering never puts symbols of two of its
components together, however gains compare, so a community is held together by joined pairs; and a
symbol that no pair joins to another one stays alone, which puts it among the others.
-/

namespace CodeAtlas.Communities

open Clustering

/-- The symbols with their joined pairs as edges. -/
def jointGraph (symbols : List Node) (edges : List Edge) : SimpleGraph String :=
  SimpleGraph.fromEdgeSet (joinedPairs symbols edges)

/-- Joined pairs lead from each member of a community to all others, and what is in no joined pair
is in the community of the others. -/
structure Supported (nodes : List Node) (edges : List Edge) (communities : List Community) :
    Prop where
  connected : ∀ c ∈ communities, c.id ≠ otherId → ∀ a ∈ c.memberIds, ∀ b ∈ c.memberIds,
    (jointGraph (symbolsOf nodes) edges).Reachable a b
  alone : ∀ id ∈ (symbolsOf nodes).map Node.id,
    (∀ p ∈ joinedPairs (symbolsOf nodes) edges, id ∉ p) →
      ∃ c ∈ communities, c.id = otherId ∧ id ∈ c.memberIds

section

variable {nodes : List Node} {symbols : List Node} {edges : List Edge} {assignment : Array Nat}

/-- The component of the symbol at a position. -/
def componentAt (symbols : List Node) (edges : List Edge) (i : Nat) :
    (jointGraph symbols edges).ConnectedComponent :=
  (jointGraph symbols edges).connectedComponentMk (idAt symbols i)

/-- No joined pair leads away from a symbol that is in none. -/
theorem eq_of_reachable {a b : String} (alone : ∀ p ∈ joinedPairs symbols edges, a ∉ p)
    (reachable : (jointGraph symbols edges).Reachable a b) : a = b := by
  obtain ⟨walk⟩ := reachable
  cases walk with
  | nil => rfl
  | cons adjacent rest =>
    have joined := ((SimpleGraph.fromEdgeSet_adj _).mp adjacent).1
    exact absurd (Sym2.mem_mk_left _ _) (alone _ joined)

/-- The ends of an edge by which symbols are clustered are in one component. -/
theorem componentAt_eq (distinct : (symbols.map Node.id).Nodup)
    (inUnit : ∀ e ∈ edges, Double.InUnit e.confidence) {e : WeightedEdge Float}
    (member : e ∈ weightedEdges symbols edges) :
    (e.a < symbols.length ∧ e.b < symbols.length) ∧
      componentAt symbols edges e.a = componentAt symbols edges e.b := by
  obtain ⟨p, weighed, first, second⟩ := exists_pair_of_weightedEdge member
  obtain ⟨order, inside, joined⟩ := (mem_weighedPairs distinct inUnit).mp weighed
  rw [first, second]
  refine ⟨⟨order.trans inside, inside⟩, ?_⟩
  rw [componentAt, componentAt, SimpleGraph.ConnectedComponent.eq]
  have proper : idAt symbols p.first ≠ idAt symbols p.second :=
    fun same => joined.1 (Sym2.mk_isDiag_iff.mpr same)
  exact SimpleGraph.Adj.reachable ((SimpleGraph.fromEdgeSet_adj _).mpr ⟨joined, proper⟩)

/-- Symbols in one cluster are connected, whatever the outcome. -/
theorem reachable_of_outcome (distinct : (symbols.map Node.id).Nodup)
    (inUnit : ∀ e ∈ edges, Double.InUnit e.confidence)
    (outcome : OutcomeOf symbols.length (weightedEdges symbols edges) assignment) :
    assignment.size = symbols.length ∧ ∀ group ∈ clusters assignment, ∀ i ∈ group, ∀ j ∈ group,
      (jointGraph symbols edges).Reachable (idAt symbols i) (idAt symbols j) := by
  have even : ∀ e ∈ weightedEdges symbols edges,
      componentAt symbols edges e.a = componentAt symbols edges e.b :=
    fun e member => (componentAt_eq distinct inUnit member).2
  obtain ⟨size, apart⟩ := outcome.colour_eq
    (fun e member => (componentAt_eq distinct inUnit member).1) even
  refine ⟨size, ?_⟩
  intro group member i inGroup j inGroup'
  obtain ⟨k, assigned⟩ := exists_number member
  have inside : ∀ i ∈ group, i < symbols.length := by
    intro i listed
    obtain ⟨bound, -⟩ := Array.getElem?_eq_some_iff.mp (assigned i listed)
    rwa [← size]
  have same := apart i (inside i inGroup) j (inside j inGroup')
    ((assigned i inGroup).trans (assigned j inGroup').symm)
  exact SimpleGraph.ConnectedComponent.exact same

/-- A symbol that is in no joined pair is among the others. -/
theorem mem_otherGroup (distinct : (symbols.map Node.id).Nodup)
    (inUnit : ∀ e ∈ edges, Double.InUnit e.confidence)
    (outcome : OutcomeOf symbols.length (weightedEdges symbols edges) assignment) {i : Nat}
    (inside : i < symbols.length) (alone : ∀ p ∈ joinedPairs symbols edges, idAt symbols i ∉ p) :
    i ∈ otherGroup assignment := by
  obtain ⟨size, connected⟩ := reachable_of_outcome distinct inUnit outcome
  have perm := clusters_perm assignment
  have listed : i ∈ (clusters assignment).flatten :=
    perm.symm.subset (List.mem_range.mpr (by rwa [size]))
  obtain ⟨group, member, inGroup⟩ := List.mem_flatten.mp listed
  have once : group.Nodup := (perm.nodup_iff.mpr List.nodup_range).sublist
    (List.sublist_flatten_of_mem member)
  -- whoever is in the cluster of the symbol is connected to it, so it is the symbol
  have only : ∀ j ∈ group, j = i := by
    intro j inGroup'
    have bound : j < symbols.length := by
      rw [← size]
      exact List.mem_range.mp (perm.subset (List.mem_flatten.mpr ⟨group, member, inGroup'⟩))
    have same := eq_of_reachable alone (connected group member i inGroup j inGroup')
    exact ((idAt_inj distinct inside bound).mp same).symm
  have single : group = [i] := by
    apply List.perm_singleton.mp
    rw [List.perm_ext_iff_of_nodup once (List.nodup_singleton i)]
    intro j
    rw [List.mem_singleton]
    exact ⟨only j, fun same => same ▸ inGroup⟩
  refine List.mem_mergeSort.mpr (List.mem_flatten.mpr ⟨group, List.mem_filter.mpr ⟨member, ?_⟩,
    inGroup⟩)
  rw [single]
  rfl

/-- The members of a community are connected, but for the others. -/
theorem reachable_of_mem_ofAssignment (distinct : ((symbolsOf nodes).map Node.id).Nodup)
    (inUnit : ∀ e ∈ edges, Double.InUnit e.confidence)
    (outcome : OutcomeOf (symbolsOf nodes).length (weightedEdges (symbolsOf nodes) edges) assignment)
    {c : Community} (member : c ∈ ofAssignment (symbolsOf nodes).toArray
      (weighedPairs (symbolsOf nodes) edges) assignment) (named : c.id ≠ otherId) {a b : String}
    (inA : a ∈ c.memberIds) (inB : b ∈ c.memberIds) :
    (jointGraph (symbolsOf nodes) edges).Reachable a b := by
  obtain ⟨size, connected⟩ := reachable_of_outcome distinct inUnit outcome
  rw [ofAssignment_eq] at member
  rcases List.mem_append.mp member with kept | other
  · obtain ⟨⟨group, n⟩, listed, rfl⟩ := List.mem_map.mp kept
    have inKept : group ∈ keptGroups (symbolsOf nodes).toArray assignment :=
      List.fst_mem_of_mem_zipIdx listed
    have inClusters : group ∈ clusters assignment :=
      List.mem_of_mem_filter (List.mem_mergeSort.mp inKept)
    have inside := (group_positions (symbolsOf nodes).toArray (.inl inKept)).2
    rw [size] at inside
    rw [memberIds_ofGroup _ _ _ inside] at inA inB
    obtain ⟨i, inGroup, rfl⟩ := List.mem_map.mp inA
    obtain ⟨j, inGroup', rfl⟩ := List.mem_map.mp inB
    exact connected group inClusters i inGroup j inGroup'
  · split_ifs at other with none
    · cases other
    · rw [List.mem_singleton.mp other] at named
      exact absurd rfl named

/-- A symbol that is in no joined pair is in the community of the others. -/
theorem exists_otherCommunity (distinct : ((symbolsOf nodes).map Node.id).Nodup)
    (inUnit : ∀ e ∈ edges, Double.InUnit e.confidence)
    (outcome : OutcomeOf (symbolsOf nodes).length (weightedEdges (symbolsOf nodes) edges) assignment)
    {i : Nat} (inside : i < (symbolsOf nodes).length)
    (alone : ∀ p ∈ joinedPairs (symbolsOf nodes) edges, idAt (symbolsOf nodes) i ∉ p) :
    ∃ c ∈ ofAssignment (symbolsOf nodes).toArray (weighedPairs (symbolsOf nodes) edges) assignment,
      c.id = otherId ∧ idAt (symbolsOf nodes) i ∈ c.memberIds := by
  have inOther := mem_otherGroup distinct inUnit outcome inside alone
  have nonempty : ¬ (otherGroup assignment).isEmpty = true := by
    rw [List.isEmpty_iff]
    exact List.ne_nil_of_mem inOther
  have positions : ∀ i ∈ otherGroup assignment, i < (symbolsOf nodes).length := by
    rw [← (reachable_of_outcome distinct inUnit outcome).1]
    exact (group_positions (symbolsOf nodes).toArray (.inr rfl)).2
  refine ⟨ofGroup (symbolsOf nodes).toArray (weighedPairs (symbolsOf nodes) edges) otherId
    (some "Other") (otherGroup assignment), ?_, rfl, ?_⟩
  · rw [ofAssignment_eq, if_neg nonempty]
    exact List.mem_append_right _ (List.mem_singleton_self _)
  · rw [memberIds_ofGroup _ _ _ positions]
    exact List.mem_map_of_mem inOther

/-- The communities of every outcome are supported. -/
theorem ofAssignment_supported (distinct : ((symbolsOf nodes).map Node.id).Nodup)
    (inUnit : ∀ e ∈ edges, Double.InUnit e.confidence)
    (outcome : OutcomeOf (symbolsOf nodes).length (weightedEdges (symbolsOf nodes) edges)
      assignment) :
    Supported nodes edges (ofAssignment (symbolsOf nodes).toArray
      (weighedPairs (symbolsOf nodes) edges) assignment) := by
  constructor
  · intro c member named a inA b inB
    exact reachable_of_mem_ofAssignment distinct inUnit outcome member named inA inB
  · intro id listed alone
    obtain ⟨n, member, rfl⟩ := List.mem_map.mp listed
    obtain ⟨i, inside, rfl⟩ := List.mem_iff_getElem.mp member
    rw [← idAt_eq inside] at alone ⊢
    exact exists_otherCommunity distinct inUnit outcome inside alone

/-- The communities of nodes with distinct ids and of edges with certainties are supported, if a
pair of symbols is joined, and so are those of every other outcome of the clustering. -/
theorem ofParts_supported (distinct : (nodes.map Node.id).Nodup)
    (inUnit : ∀ e ∈ edges, Double.InUnit e.confidence)
    (joined : (joinedPairs (symbolsOf nodes) edges).Nonempty) :
    Supported nodes edges (ofParts nodes edges) ∧
      (∃ assignment, OutcomeOf (symbolsOf nodes).length (weightedEdges (symbolsOf nodes) edges)
          assignment ∧
        ofParts nodes edges = ofAssignment (symbolsOf nodes).toArray
          (weighedPairs (symbolsOf nodes) edges) assignment) ∧
      ∀ assignment, OutcomeOf (symbolsOf nodes).length (weightedEdges (symbolsOf nodes) edges)
          assignment →
        Supported nodes edges (ofAssignment (symbolsOf nodes).toArray
          (weighedPairs (symbolsOf nodes) edges) assignment) := by
  have symbolIds : ((symbolsOf nodes).map Node.id).Nodup :=
    distinct.sublist (List.filter_sublist.map _)
  obtain ⟨assignment, -, found, parts⟩ := ofParts_clustered symbolIds inUnit joined
  have outcome := cluster?_outcome found
  refine ⟨?_, ⟨assignment, outcome, parts⟩, ?_⟩
  · rw [parts]
    exact ofAssignment_supported symbolIds inUnit outcome
  · intro other outcome'
    exact ofAssignment_supported symbolIds inUnit outcome'

/-- Two functions of a file, one of which calls the other, and a third one that nothing joins. -/
theorem ofParts_supported_alone :
    let f := Node.ofSymbol .function "f" "a.py" "python" 1 2
    let g := Node.ofSymbol .function "g" "a.py" "python" 3 4
    let h := Node.ofSymbol .function "h" "a.py" "python" 5 6
    let nodes := [Node.ofFile "a.py" "python", f, g, h]
    let edges := [Edge.make f.id g.id .calls 1.0 "same-file"]
    (nodes.map Node.id).Nodup ∧ (∀ e ∈ edges, Double.InUnit e.confidence) ∧
      (joinedPairs (symbolsOf nodes) edges).Nonempty ∧
      Supported nodes edges (ofParts nodes edges) := by
  intro f g h nodes edges
  have distinct : (nodes.map Node.id).Nodup := by decide
  have inUnit : ∀ e ∈ edges, Double.InUnit e.confidence := by
    intro e member
    rw [List.mem_singleton.mp member, confidence_sure]
    exact Double.one_denotes.inUnit le_rfl
  have joined : s(f.id, g.id) ∈ joinedPairs (symbolsOf nodes) edges :=
    joined_of_sure (by decide) (by decide) (by decide) (List.mem_singleton_self _)
  exact ⟨distinct, inUnit, ⟨_, joined⟩, (ofParts_supported distinct inUnit ⟨_, joined⟩).1⟩

end

end CodeAtlas.Communities
