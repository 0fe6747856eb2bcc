import CodeAtlas.Proofs.Clustering.Exact

/-!
# Merging keeps every sum

When clusters become nodes, each edge and each loop counts once, between or within the clusters of its
ends. So whatever is counted for clusters is the same on the coarser level as on the finer one: the
weight, the degrees and the modularity.
-/

namespace CodeAtlas.Clustering

open Finset

/-- The network of the sums that are collected for a coarser level. -/
def Merging.network (s : Merging ℚ) : Network :=
  ⟨s.between.map fun (p, w) => ⟨p.first, p.second, w⟩, s.loops⟩

namespace Network

/-- The network whose nodes are the clusters, of which there are `count`. -/
def merge (N : Network) (cluster : Array Nat) (count : Nat) : Network :=
  (merged N.graph cluster count).network

theorem coarsen_graph (N : Network) (cluster : Array Nat) (count : Nat) :
    coarsen N.graph cluster count = (N.merge cluster count).graph :=
  rfl

end Network

section

variable {N : Network} {g : WeightedGraph ℚ} {s : Merging ℚ} {cluster : Array Nat} {node n count : Nat}
  {times : Nat → Nat → ℚ}

/-! ### One edge -/

theorem Merging.weigh_network (s : Merging ℚ) (times : Nat → Nat → ℚ) : s.network.weigh times =
    (s.between.map fun x => times x.1.first x.1.second * x.2).sum +
      ∑ i ∈ range s.loops.size, times i i * s.loops.getD i 0 := by
  rw [Network.weigh, network, List.map_map]
  rfl

theorem sum_modify (loops : Array ℚ) {c : Nat} (inside : c < loops.size) (w : ℚ) (f : Nat → ℚ) :
    ∑ i ∈ range (loops.modify c (· + w)).size, f i * (loops.modify c (· + w)).getD i 0 =
      ∑ i ∈ range loops.size, f i * loops.getD i 0 + f c * w := by
  have each : ∀ i, f i * (loops.modify c (· + w)).getD i 0 =
      f i * loops.getD i 0 + if c = i then f i * w else 0 := by
    intro i
    rw [getD_modify inside]
    split_ifs <;> ring
  simp only [each, Array.size_modify, sum_add_distrib, sum_ite_eq, mem_range, inside, if_true]

/-- A weight at a loop counts there. -/
theorem Merging.weigh_loop (s : Merging ℚ) {c : Nat} (inside : c < s.loops.size) (w : ℚ)
    (times : Nat → Nat → ℚ) :
    ({ s with loops := s.loops.modify c (· + w) } : Merging ℚ).network.weigh times =
      s.network.weigh times + times c c * w := by
  rw [weigh_network, weigh_network, sum_modify s.loops inside w fun i => times i i, add_assoc]

theorem Merging.weigh_pair (s : Merging ℚ) (symmetric : ∀ a b, times a b = times b a) (c d : Nat)
    (w : ℚ) :
    ({ s with between := Weights.add (Pair.of c d) w s.between } : Merging ℚ).network.weigh times =
      s.network.weigh times + times c d * w := by
  have sorted : times (Pair.of c d).first (Pair.of c d).second = times c d := by
    rcases Nat.le_total c d with le | le
    · rw [Pair.of, min_eq_left le, max_eq_right le]
    · rw [Pair.of, min_eq_right le, max_eq_left le, symmetric]
  rw [weigh_network, weigh_network]
  dsimp only
  rw [Weights.sum_add (Pair.of c d) w s.between fun p => times p.first p.second, sorted]
  ring

/-- An edge counts once, when it is seen from the lesser of its ends. -/
theorem weigh_mergeEdge (symmetric : ∀ a b, times a b = times b a)
    (inside : cluster.getD node 0 < s.loops.size) (edge : Nat × ℚ) :
    (mergeEdge cluster node s edge).network.weigh times = s.network.weigh times +
      if edge.1 < node then 0
      else times (cluster.getD node 0) (cluster.getD edge.1 0) * edge.2 := by
  unfold mergeEdge
  dsimp only
  split_ifs with seen same
  · rw [add_zero]
  · rw [s.weigh_loop inside, ← same]
  · exact s.weigh_pair symmetric _ _ _

theorem size_loops_mergeEdge (edge : Nat × ℚ) :
    (mergeEdge cluster node s edge).loops.size = s.loops.size := by
  unfold mergeEdge
  dsimp only
  split_ifs
  · rfl
  · exact Array.size_modify
  · rfl

/-! ### All edges -/

theorem weigh_foldl_mergeEdge (symmetric : ∀ a b, times a b = times b a)
    (inside : cluster.getD node 0 < s.loops.size) (edges : List (Nat × ℚ)) :
    (edges.foldl (mergeEdge cluster node) s).network.weigh times = s.network.weigh times +
      (edges.map fun edge => if edge.1 < node then 0
        else times (cluster.getD node 0) (cluster.getD edge.1 0) * edge.2).sum := by
  induction edges generalizing s with
  | nil => simp
  | cons edge rest ih =>
    rw [List.foldl_cons, ih (by rwa [size_loops_mergeEdge]), weigh_mergeEdge symmetric inside,
      List.map_cons, List.sum_cons, add_assoc]

theorem weigh_mergeNode (symmetric : ∀ a b, times a b = times b a)
    (inside : cluster.getD node 0 < s.loops.size) :
    (mergeNode g cluster s node).network.weigh times = s.network.weigh times +
      (times (cluster.getD node 0) (cluster.getD node 0) * g.loops.getD node 0 +
        ((g.neighbours.getD node []).map fun edge => if edge.1 < node then 0
          else times (cluster.getD node 0) (cluster.getD edge.1 0) * edge.2).sum) := by
  unfold mergeNode
  dsimp only
  rw [weigh_foldl_mergeEdge symmetric (by rwa [Array.size_modify]), s.weigh_loop inside,
    scalar_zero_eq, add_assoc]

theorem weigh_foldl_mergeNode (graph : g.Sized n) (size : cluster.size = n)
    (inside : ∀ c ∈ cluster, c < count) (sized : s.Sized count)
    (symmetric : ∀ a b, times a b = times b a) (nodes : List Nat) (known : ∀ i ∈ nodes, i < n) :
    (nodes.foldl (mergeNode g cluster) s).network.weigh times = s.network.weigh times +
      (nodes.map fun node =>
        times (cluster.getD node 0) (cluster.getD node 0) * g.loops.getD node 0 +
          ((g.neighbours.getD node []).map fun edge => if edge.1 < node then 0
            else times (cluster.getD node 0) (cluster.getD edge.1 0) * edge.2).sum).sum := by
  induction nodes generalizing s with
  | nil => simp
  | cons node rest ih =>
    obtain ⟨here, others⟩ := List.forall_mem_cons.mp known
    have target : cluster.getD node 0 < s.loops.size := by
      rw [sized.loops]
      exact getD_lt inside (by rwa [size])
    rw [List.foldl_cons, ih (mergeNode_sized graph size inside sized here) others,
      weigh_mergeNode symmetric target, List.map_cons, List.sum_cons, add_assoc]

theorem sum_sum_map {β : Type} (nodes : Finset Nat) (xs : List β) (f : Nat → β → ℚ) :
    ∑ i ∈ nodes, (xs.map (f i)).sum = (xs.map fun x => ∑ i ∈ nodes, f i x).sum := by
  induction xs with
  | nil => simp
  | cons x rest ih => simp only [List.map_cons, List.sum_cons, sum_add_distrib, ih]

namespace Network

/-- Whatever is counted for the clusters of the ends is the same before and after merging. -/
theorem Proper.weigh_merge (proper : N.Proper) (size : cluster.size = N.size)
    (inside : ∀ c ∈ cluster, c < count) (symmetric : ∀ a b, times a b = times b a) :
    (N.merge cluster count).weigh times =
      N.weigh fun a b => times (cluster.getD a 0) (cluster.getD b 0) := by
  have empty : (⟨Array.replicate count Scalar.zero, []⟩ : Merging ℚ).network.weigh times = 0 := by
    rw [Merging.weigh_network, scalar_zero_eq]
    simp only [List.map_nil, List.sum_nil, getD_replicate_zero, mul_zero, sum_const_zero, add_zero]
  have edges : ∀ e ∈ N.edges, (∑ i ∈ range N.size,
      ((if e.a = i then if e.b < i then 0 else times (cluster.getD i 0) (cluster.getD e.b 0) *
          e.weight else 0) +
        if e.b = i then if e.a < i then 0 else times (cluster.getD i 0) (cluster.getD e.a 0) *
          e.weight else 0)) = times (cluster.getD e.a 0) (cluster.getD e.b 0) * e.weight := by
    intro e member
    obtain ⟨first, second⟩ := proper.ends e member
    simp only [sum_add_distrib, sum_ite_eq, mem_range, first, second, if_true]
    -- of its two ends an edge is counted at the lesser one
    rcases Nat.lt_or_gt_of_ne (proper.apart e member) with less | less
    · rw [if_neg less.not_gt, if_pos less, add_zero]
    · rw [if_pos less, if_neg less.not_gt, zero_add, symmetric]
  have summed := weigh_foldl_mergeNode proper.graph_sized size inside
    (s := ⟨Array.replicate count Scalar.zero, []⟩) ⟨Array.size_replicate, by simp⟩ symmetric
    (List.range N.size) fun i => List.mem_range.mp
  rw [empty, zero_add] at summed
  have nodes : ∀ f : Nat → ℚ, ((List.range N.size).map f).sum = ∑ i ∈ range N.size, f i :=
    fun _ => rfl
  show ((List.range N.size).foldl (mergeNode N.graph cluster) _).network.weigh times = _
  rw [summed, nodes, sum_add_distrib, weigh, add_comm]
  congr 1
  simp only [proper.sum_neighbours _ fun edge => if edge.1 < _ then 0
    else times (cluster.getD _ 0) (cluster.getD edge.1 0) * edge.2]
  rw [sum_sum_map]
  exact congrArg List.sum (List.map_congr_left edges)

/-! ### The coarser network -/

theorem size_merge (proper : N.Proper) (size : cluster.size = N.size)
    (inside : ∀ c ∈ cluster, c < count) : (N.merge cluster count).size = count :=
  (merged_sized proper.graph_sized size inside).loops

/-- No edge of the coarser network is a loop. -/
theorem merged_apart (g : WeightedGraph ℚ) (cluster : Array Nat) (count : Nat) :
    ∀ p ∈ (merged g cluster count).between.map Prod.fst, p.first ≠ p.second := by
  refine List.foldlRecOn (motive := fun s : Merging ℚ =>
    ∀ p ∈ s.between.map Prod.fst, p.first ≠ p.second) _ _ (by simp) ?_
  intro s before node _
  refine List.foldlRecOn (motive := fun s : Merging ℚ =>
    ∀ p ∈ s.between.map Prod.fst, p.first ≠ p.second) _ _ before ?_
  intro s before edge _ p listed
  unfold mergeEdge at listed
  dsimp only at listed
  split_ifs at listed with seen same
  · exact before p listed
  · exact before p listed
  · rcases Weights.mem_keys_add.mp listed with rfl | old
    · exact (min_lt_max.mpr same).ne
    · exact before p old

theorem Proper.merge (proper : N.Proper) (size : cluster.size = N.size)
    (inside : ∀ c ∈ cluster, c < count) : (N.merge cluster count).Proper := by
  constructor
  · rintro e member
    obtain ⟨x, listed, rfl⟩ := List.mem_map.mp member
    rw [size_merge proper size inside]
    exact (merged_sized proper.graph_sized size inside).between _ (List.mem_map_of_mem listed)
  · rintro e member
    obtain ⟨x, listed, rfl⟩ := List.mem_map.mp member
    exact merged_apart N.graph cluster count _ (List.mem_map_of_mem listed)

theorem Proper.mass_merge (proper : N.Proper) (size : cluster.size = N.size)
    (inside : ∀ c ∈ cluster, c < count) : (N.merge cluster count).mass = N.mass :=
  proper.weigh_merge size inside fun _ _ => rfl

theorem Proper.inside_merge (proper : N.Proper) (size : cluster.size = N.size)
    (inside : ∀ c ∈ cluster, c < count) (label : Nat → Nat) (c : Nat) :
    (N.merge cluster count).inside label c = N.inside (fun i => label (cluster.getD i 0)) c :=
  proper.weigh_merge size inside fun _ _ => by simp only [and_comm]

/-- A new node has the degrees of its members. -/
theorem Proper.degree_merge (proper : N.Proper) (size : cluster.size = N.size)
    (inside : ∀ c ∈ cluster, c < count) (i : Nat) :
    (N.merge cluster count).degree i = N.degreeIn (cluster.getD · 0) i := by
  rw [proper.degreeIn_eq]
  exact proper.weigh_merge size inside fun _ _ => add_comm _ _

theorem Proper.degreeIn_merge (proper : N.Proper) (size : cluster.size = N.size)
    (inside : ∀ c ∈ cluster, c < count) (label : Nat → Nat) (c : Nat) :
    (N.merge cluster count).degreeIn label c =
      N.degreeIn (fun i => label (cluster.getD i 0)) c := by
  rw [(proper.merge size inside).degreeIn_eq, proper.degreeIn_eq]
  exact proper.weigh_merge size inside fun _ _ => add_comm _ _

/-- Clusters of the new nodes have the modularity of the same clusters of their members. -/
theorem Proper.modularity_merge (proper : N.Proper) (size : cluster.size = N.size)
    (inside : ∀ c ∈ cluster, c < count) (resolution : ℚ) (label : Nat → Nat) :
    (N.merge cluster count).modularity resolution label =
      N.modularity resolution fun i => label (cluster.getD i 0) := by
  have labels : ∀ i < N.size, label (cluster.getD i 0) ∈ (range count).image label := by
    intro i known
    exact mem_image_of_mem label (mem_range.mpr (getD_lt inside (by rwa [size])))
  rw [proper.modularity_eq resolution labels, modularity, size_merge proper size inside]
  refine sum_congr rfl fun c _ => ?_
  rw [proper.inside_merge size inside, proper.degreeIn_merge size inside,
    proper.mass_merge size inside]

end Network

end

end CodeAtlas.Clustering
