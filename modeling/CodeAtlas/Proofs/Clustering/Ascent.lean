import CodeAtlas.Proofs.Clustering.Merging
import CodeAtlas.Proofs.Clustering.Moves

/-!
# Clustering climbs

With exact weights every move of a node raises the modularity of its level, and the clusters of a
level, taken as nodes of the next one, have the modularity they had before. So every level that moves
something is followed by a smaller one, and the clustering that comes out is at least as good as leaving
each node alone: it is better, unless it leaves each node alone.
-/

namespace CodeAtlas.Clustering

open Finset

namespace Network

/-- The network of the clusters into which the nodes of a level settle. -/
def coarser (N : Network) (resolution : ℚ) : Network :=
  N.merge (renumbered (settle N.graph resolution).cluster)
    (clusterNumbers (settle N.graph resolution).cluster).length

/-- The levels that are gone through: after each one on which a node has moved comes that of its
clusters. -/
inductive LevelOf (resolution : ℚ) (first : Network) : Network → Prop where
  | first : LevelOf resolution first first
  | next {N : Network} : LevelOf resolution first N →
      (settle N.graph resolution).improved = true → LevelOf resolution first (N.coarser resolution)

/-- What holds of a level: the sums that are kept for the clusters are the degrees in them; a node that
goes to another cluster raises the modularity; clusters that are merged keep the weight, their degrees
and their modularity; they are fewer than the nodes if a node has moved, and then the clustering goes on
from them. -/
structure Climbs (N : Network) (resolution : ℚ) : Prop where
  sums : ∀ s, Reached N.graph resolution s →
    ∀ c < N.size, s.sigma.getD c 0 = ∑ i ∈ range N.size with s.clusterOf i = c, N.degree i
  moves : ∀ s, Reached N.graph resolution s → ∀ node < N.size,
    (visit N.graph resolution s node).clusterOf node ≠ s.clusterOf node →
      N.modularity resolution s.clusterOf <
        N.modularity resolution (visit N.graph resolution s node).clusterOf
  settles : Reached N.graph resolution (settle N.graph resolution)
  merges : ∀ cluster count, cluster.size = N.size → (∀ c ∈ cluster, c < count) →
    coarsen N.graph cluster count = (N.merge cluster count).graph ∧
      (N.merge cluster count).mass = N.mass ∧
      (coarsen N.graph cluster count).total = N.graph.total ∧
      (∀ c < count, (coarsen N.graph cluster count).degreeOf c =
        ∑ i ∈ range N.size with cluster.getD i 0 = c, N.graph.degreeOf i) ∧
      (N.merge cluster count).modularity resolution id = N.modularity resolution (cluster.getD · 0)
  fewer : (settle N.graph resolution).improved = true → (N.coarser resolution).size < N.size
  goesOn : ∀ steps membership, levels resolution (steps + 1) N.graph membership =
    if (settle N.graph resolution).improved then
      levels resolution steps (N.coarser resolution).graph
        (membership.map fun m => (renumbered (settle N.graph resolution).cluster).getD m 0)
    else membership

section

variable {N first : Network} {resolution : ℚ} {s : Moving ℚ} {cluster membership : Array Nat}

/-! ### Clusters under other numbers -/

/-- New numbers leave the modularity as it is. -/
theorem Proper.modularity_renumbered (proper : N.Proper) (resolution : ℚ)
    (size : cluster.size = N.size) : N.modularity resolution ((renumbered cluster).getD · 0) =
      N.modularity resolution fun i => cluster.getD i i := by
  apply proper.modularity_congr
  intro i known j known'
  rw [← size] at known known'
  rw [getD_renumbered known, getD_renumbered known']
  exact List.idxOf_inj (getD_mem_clusterNumbers known)

/-- As many clusters as nodes have one node each. -/
theorem injOn_of_many (size : cluster.size = N.size)
    (many : N.size ≤ (clusterNumbers cluster).length) :
    Set.InjOn (fun i => cluster.getD i i) (range N.size) := by
  have once : (clusterNumbers cluster).Nodup := firstOccurrences_nodup _ List.nodup_nil
  have among : (clusterNumbers cluster).toFinset ⊆ (range N.size).image fun i => cluster.getD i i := by
    intro c member
    have listed := ((mem_firstOccurrences [] _).mp (List.mem_toFinset.mp member)).resolve_left
      List.not_mem_nil
    obtain ⟨i, inside, rfl⟩ := Array.mem_iff_getElem.mp (Array.mem_toList_iff.mp listed)
    refine mem_image.mpr ⟨i, mem_range.mpr (by rwa [← size]), ?_⟩
    rw [Array.getD_eq_getD_getElem?, Array.getElem?_eq_getElem inside, Option.getD_some]
  have enough := card_le_card among
  rw [List.toFinset_card_of_nodup once] at enough
  apply card_image_iff.mp
  refine le_antisymm card_image_le ?_
  rw [card_range]
  exact many.trans enough

/-! ### One level -/

theorem Proper.settle_size (proper : N.Proper) (resolution : ℚ) :
    (settle N.graph resolution).cluster.size = N.size :=
  (proper.accounts (settle_reached N.graph resolution)).sized.cluster

theorem size_renumbered (proper : N.Proper) (resolution : ℚ) :
    (renumbered (settle N.graph resolution).cluster).size = N.size := by
  rw [renumbered, Array.size_map, proper.settle_size]

theorem Proper.coarser (proper : N.Proper) (resolution : ℚ) : (N.coarser resolution).Proper :=
  proper.merge (size_renumbered proper resolution) renumbered_lt

theorem Proper.mass_coarser (proper : N.Proper) (resolution : ℚ) :
    (N.coarser resolution).mass = N.mass :=
  proper.mass_merge (size_renumbered proper resolution) renumbered_lt

/-- Where a node has moved there are fewer clusters than nodes, as the modularity is not that of single
nodes. -/
theorem Proper.fewer (proper : N.Proper) (positive : 0 < N.mass)
    (improved : (settle N.graph resolution).improved = true) :
    (N.coarser resolution).size < N.size := by
  have size := proper.settle_size resolution
  have greater := (proper.ascends positive (settle_reached N.graph resolution)).2 improved
  rw [Network.coarser, size_merge proper (size_renumbered proper resolution) renumbered_lt]
  by_contra many
  have apart := injOn_of_many size (Nat.le_of_not_lt many)
  have same : N.modularity resolution id =
      N.modularity resolution (settle N.graph resolution).clusterOf := by
    apply proper.modularity_congr
    intro i known j known'
    exact (apart.eq_iff (mem_coe.mpr (mem_range.mpr known)) (mem_coe.mpr (mem_range.mpr known'))).symm
  exact greater.ne same

theorem Proper.climbs (proper : N.Proper) (positive : 0 < N.mass) (resolution : ℚ) :
    N.Climbs resolution where
  sums s reached := (proper.accounts reached).sigma
  moves s reached node known moved := by
    have accounts := proper.accounts reached
    refine (proper.visit_raises positive resolution accounts known).resolve_left fun stays => moved ?_
    rw [clusterOf_visit (by rwa [accounts.sized.cluster]), stays, Function.update_eq_self]
  settles := settle_reached N.graph resolution
  merges cluster count size inside := by
    have merged := proper.merge size inside
    have mass := proper.mass_merge size inside
    refine ⟨rfl, mass, ?_, ?_, proper.modularity_merge size inside resolution id⟩
    · rw [coarsen_graph, merged.graph_total, proper.graph_total, mass]
    · intro c known
      rw [coarsen_graph, merged.graph_degreeOf (by rwa [size_merge proper size inside]),
        proper.degree_merge size inside, degreeIn]
      refine sum_congr rfl fun i member => ?_
      exact (proper.graph_degreeOf (mem_range.mp (mem_filter.mp member).1)).symm
  fewer := proper.fewer positive
  goesOn _ _ := rfl

/-! ### All levels -/

theorem LevelOf.proper (level : LevelOf resolution first N) (proper : first.Proper) :
    N.Proper ∧ N.mass = first.mass := by
  induction level with
  | first => exact ⟨proper, rfl⟩
  | next _ _ ih => exact ⟨ih.1.coarser resolution, (ih.1.mass_coarser resolution).trans ih.2⟩

/-- The members on the first level of the clusters into which a level settles. -/
def settledMembers (N : Network) (resolution : ℚ) (membership : Array Nat) : Array Nat :=
  membership.map fun m => (renumbered (settle N.graph resolution).cluster).getD m 0

/-- The nodes of the first level are members of those of a later one, whose clusters have the
modularity of the clusters of their members. -/
structure MembersOf (resolution : ℚ) (first N : Network) (membership : Array Nat) : Prop where
  size : membership.size = first.size
  inside : ∀ m ∈ membership, m < N.size
  same : ∀ label : Nat → Nat, N.modularity resolution label =
    first.modularity resolution fun i => label (membership.getD i 0)

/-- The members of the nodes of a level are those of the nodes of the next one. -/
theorem MembersOf.next (members : MembersOf resolution first N membership)
    (firstProper : first.Proper) (proper : N.Proper) :
    MembersOf resolution first (N.coarser resolution)
      (N.settledMembers resolution membership) := by
  have bound := size_renumbered proper resolution
  constructor
  case size => rw [settledMembers, Array.size_map, members.size]
  case inside =>
    intro m moved
    obtain ⟨node, before, rfl⟩ := Array.mem_map.mp moved
    rw [Network.coarser, size_merge proper bound renumbered_lt]
    exact getD_lt renumbered_lt (by rw [bound]; exact members.inside node before)
  case same =>
    intro label
    have lookUp : ∀ i < first.size, (N.settledMembers resolution membership).getD i 0 =
        (renumbered (settle N.graph resolution).cluster).getD (membership.getD i 0) 0 := by
      intro i known
      have here : i < membership.size := by rwa [members.size]
      simp [settledMembers, here]
    rw [Network.coarser, proper.modularity_merge bound renumbered_lt, members.same]
    apply firstProper.modularity_congr
    intro i known j known'
    rw [lookUp i known, lookUp j known']

/-- Where a node has moved on a level, the clusters of the next one have more modularity. -/
theorem MembersOf.raised (members : MembersOf resolution first N membership)
    (firstProper : first.Proper) (proper : N.Proper) (positive : 0 < N.mass)
    (improved : (settle N.graph resolution).improved = true) :
    first.modularity resolution (membership.getD · 0) <
      first.modularity resolution ((N.settledMembers resolution membership).getD · 0) := by
  have greater := (proper.ascends positive (settle_reached N.graph resolution)).2 improved
  calc first.modularity resolution (membership.getD · 0)
      = N.modularity resolution id := (members.same id).symm
    _ < N.modularity resolution (settle N.graph resolution).clusterOf := greater
    _ = N.modularity resolution ((renumbered (settle N.graph resolution).cluster).getD · 0) :=
        (proper.modularity_renumbered resolution (proper.settle_size resolution)).symm
    _ = (N.coarser resolution).modularity resolution id :=
        (proper.modularity_merge (size_renumbered proper resolution) renumbered_lt resolution id).symm
    _ = first.modularity resolution ((N.settledMembers resolution membership).getD · 0) :=
        (members.next firstProper proper).same id

/-- Going on from a level either changes nothing or raises the modularity on the first level, where
members in one node of the level are in one cluster. -/
theorem levels_ascend (firstProper : first.Proper) (proper : N.Proper) (positive : 0 < N.mass)
    (members : MembersOf resolution first N membership) (steps : Nat) :
    levels resolution steps N.graph membership = membership ∨
      first.modularity resolution (membership.getD · 0) <
        first.modularity resolution ((levels resolution steps N.graph membership).getD · 0) := by
  induction steps generalizing N membership with
  | zero => exact .inl rfl
  | succ steps ih =>
    rw [(proper.climbs positive resolution).goesOn]
    split
    · next improved =>
      have raised := members.raised firstProper proper positive improved
      have later := ih (proper.coarser resolution) (by rwa [proper.mass_coarser])
        (members.next firstProper proper)
      rcases later with ends | more
      · right
        rw [settledMembers] at ends raised
        rwa [ends]
      · exact .inr (raised.trans more)
    · exact .inl rfl

end

end Network

/-! ### Clusterings -/

namespace Network

/-- The network of edges between `n` nodes, without loops. -/
def ofEdges (n : Nat) (edges : List (WeightedEdge ℚ)) : Network :=
  ⟨edges, Array.replicate n 0⟩

section

variable {n : Nat} {edges : List (WeightedEdge ℚ)}

theorem size_ofEdges (n : Nat) (edges : List (WeightedEdge ℚ)) : (ofEdges n edges).size = n :=
  Array.size_replicate

theorem ofEdges_proper (ends : ∀ e ∈ edges, e.a < n ∧ e.b < n ∧ e.a ≠ e.b) :
    (ofEdges n edges).Proper := by
  refine ⟨fun e member => ?_, fun e member => (ends e member).2.2⟩
  rw [size_ofEdges]
  exact ⟨(ends e member).1, (ends e member).2.1⟩

theorem mass_ofEdges (n : Nat) (edges : List (WeightedEdge ℚ)) :
    (ofEdges n edges).mass = (edges.map WeightedEdge.weight).sum := by
  simp only [mass, weigh, ofEdges, getD_replicate_zero, one_mul, sum_const_zero, add_zero]

theorem mass_pos_iff (weights : ∀ e ∈ edges, 0 < e.weight) :
    0 < (ofEdges n edges).mass ↔ edges ≠ [] := by
  rw [mass_ofEdges]
  constructor
  · rintro positive rfl
    exact positive.false
  · intro nonempty
    apply List.sum_pos
    · intro w member
      obtain ⟨e, listed, rfl⟩ := List.mem_map.mp member
      exact weights e listed
    · simpa using nonempty

/-- Each node by itself. -/
theorem modularity_range (proper : (ofEdges n edges).Proper) (resolution : ℚ) (label : Nat → Nat) :
    (ofEdges n edges).modularity resolution label =
      (ofEdges n edges).modularity resolution fun i => label ((Array.range n).getD i 0) := by
  apply proper.modularity_congr
  intro i known j known'
  rw [size_ofEdges] at known known'
  simp [known, known']

end

end Network

section

open Network

variable {n : Nat} {edges : List (WeightedEdge ℚ)}

theorem isSound_of_pos {e : WeightedEdge ℚ} (first : e.a < n) (second : e.b < n)
    (positive : 0 < e.weight) : e.isSound n = true := by
  have notLess : Scalar.less e.weight Scalar.zero = false := by
    rw [scalar_zero_eq]
    exact decide_eq_false positive.le.not_gt
  have finite : Scalar.isFinite e.weight = true := rfl
  simp [WeightedEdge.isSound, first, second, notLess, finite]

/-- Edges with positive weights are clustered if there are any. -/
theorem cluster?_eq (resolution : ℚ) (proper : (ofEdges n edges).Proper)
    (weights : ∀ e ∈ edges, 0 < e.weight) :
    cluster? n edges resolution = if edges = [] then none
      else some (levels resolution mostLevels (ofEdges n edges).graph (Array.range n)) := by
  have sound : edges.all (WeightedEdge.isSound n) = true := by
    rw [List.all_eq_true]
    intro e member
    obtain ⟨first, second⟩ := proper.ends e member
    rw [size_ofEdges] at first second
    exact isSound_of_pos first second (weights e member)
  have graph : WeightedGraph.make edges (Array.replicate n (Scalar.zero : ℚ)) =
      (ofEdges n edges).graph := by
    rw [scalar_zero_eq]
    rfl
  have finite : Scalar.isFinite (ofEdges n edges).graph.total = true := rfl
  have order : Scalar.less Scalar.zero (ofEdges n edges).graph.total = decide (edges ≠ []) := by
    refine decide_eq_decide.mpr ?_
    rw [proper.graph_total, scalar_zero_eq, ← mass_pos_iff (n := n) weights]
    exact mul_pos_iff_of_pos_left two_pos
  rw [cluster?, sound, graph]
  dsimp only
  rw [finite, order]
  by_cases none : edges = []
  · simp [none]
  · simp [none]

/-- The clustering with exact weights: there is one if there are edges; every level of it climbs; and
it has no less modularity than single nodes, and more if it is not single nodes. -/
theorem clustering_ascends (resolution : ℚ)
    (proper : ∀ e ∈ edges, e.a < n ∧ e.b < n ∧ e.a ≠ e.b ∧ 0 < e.weight) :
    (edges = [] → cluster? n edges resolution = none) ∧
      (edges ≠ [] →
        cluster? n edges resolution =
            some (levels resolution mostLevels (ofEdges n edges).graph (Array.range n)) ∧
          ∀ N, LevelOf resolution (ofEdges n edges) N → N.Climbs resolution) ∧
      ∀ assignment, cluster? n edges resolution = some assignment →
        (ofEdges n edges).modularity resolution id ≤
            (ofEdges n edges).modularity resolution (assignment.getD · 0) ∧
          (assignment ≠ Array.range n →
            (ofEdges n edges).modularity resolution id <
              (ofEdges n edges).modularity resolution (assignment.getD · 0)) := by
  have isProper : (ofEdges n edges).Proper := ofEdges_proper fun e member =>
    ⟨(proper e member).1, (proper e member).2.1, (proper e member).2.2.1⟩
  have weights : ∀ e ∈ edges, 0 < e.weight := fun e member => (proper e member).2.2.2
  have found := cluster?_eq resolution isProper weights
  refine ⟨?_, ?_, ?_⟩
  · intro none
    rw [found, if_pos none]
  · intro nonempty
    refine ⟨by rw [found, if_neg nonempty], fun N level => ?_⟩
    obtain ⟨isProper', mass⟩ := level.proper isProper
    exact isProper'.climbs (by rw [mass]; exact (mass_pos_iff weights).mpr nonempty) resolution
  · intro assignment clustered
    rw [found] at clustered
    split_ifs at clustered with none
    obtain rfl := Option.some.inj clustered
    have inside : ∀ m ∈ Array.range n, m < (ofEdges n edges).size := by
      intro m member
      rw [size_ofEdges]
      exact Array.mem_range.mp member
    have ascent := levels_ascend isProper isProper ((mass_pos_iff weights).mpr none)
      ⟨by rw [size_ofEdges, Array.size_range], inside, modularity_range isProper resolution⟩
      mostLevels
    rw [modularity_range isProper resolution id]
    rcases ascent with same | more
    · rw [same]
      exact ⟨le_rfl, fun different => absurd rfl different⟩
    · exact ⟨more.le, fun _ => more⟩

/-- Two triangles that a light edge joins. -/
theorem clustering_ascends_triangles :
    let edges : List (WeightedEdge ℚ) := [⟨0, 1, 9 / 10⟩, ⟨0, 2, 9 / 10⟩, ⟨1, 2, 9 / 10⟩,
      ⟨3, 4, 9 / 10⟩, ⟨3, 5, 9 / 10⟩, ⟨4, 5, 9 / 10⟩, ⟨2, 3, 1 / 10⟩]
    (∀ e ∈ edges, e.a < 6 ∧ e.b < 6 ∧ e.a ≠ e.b ∧ 0 < e.weight) ∧
      cluster? 6 edges 1 = some #[0, 0, 0, 1, 1, 1] ∧
      (ofEdges 6 edges).modularity 1 id <
        (ofEdges 6 edges).modularity 1 (#[0, 0, 0, 1, 1, 1].getD · 0) := by
  intro edges
  have proper : ∀ e ∈ edges, e.a < 6 ∧ e.b < 6 ∧ e.a ≠ e.b ∧ 0 < e.weight := by decide +kernel
  have clustered : cluster? 6 edges (1 : ℚ) = some #[0, 0, 0, 1, 1, 1] := by decide +kernel
  exact ⟨proper, clustered, ((clustering_ascends 1 proper).2.2 _ clustered).2 (by decide)⟩

end

end CodeAtlas.Clustering
