import CodeAtlas.Proofs.Clustering.Weights

/-!
# Clustering stays within its arrays

The arrays of a graph and of the clusters of its nodes have one entry for each node, and whatever
they name is a node again. Moving a node keeps that, and so does making the clusters the nodes of a
coarser graph, so that no step looks beyond the end of an array.
-/

namespace CodeAtlas.Clustering

variable {α : Type} [Scalar α] {n : Nat}

/-! ### Graphs -/

/-- A relation holds between each node and its neighbours. -/
def Along (r : Nat → Nat → Prop) (neighbours : Array (List (Nat × α))) : Prop :=
  ∀ node, ∀ x ∈ neighbours.getD node [], r node x.1

/-- All neighbours are among `n` nodes. -/
def Linked (n : Nat) (neighbours : Array (List (Nat × α))) : Prop :=
  ∀ node, ∀ x ∈ neighbours.getD node [], x.1 < n

/-- A graph of `n` nodes. -/
structure WeightedGraph.Sized (g : WeightedGraph α) (n : Nat) : Prop where
  neighbours : g.neighbours.size = n
  loops : g.loops.size = n
  degree : g.degree.size = n
  linked : Linked n g.neighbours

section

variable {neighbours : Array (List (Nat × α))} {edges : List (WeightedEdge α)}
  {r : Nat → Nat → Prop}

omit [Scalar α] in
theorem Along.modify_cons (along : Along r neighbours) {x : Nat × α} {i : Nat} (joined : r i x.1) :
    Along r (neighbours.modify i (x :: ·)) := by
  intro node y member
  rw [Array.getD_eq_getD_getElem?, Array.getElem?_modify] at member
  have here := along node
  rw [Array.getD_eq_getD_getElem?] at here
  split at member
  · next same =>
    cases found : neighbours[node]? with
    | none => simp [found] at member
    | some links =>
      rw [found] at member here
      rcases List.mem_cons.mp member with rfl | before
      · rwa [← same]
      · exact here y before
  · exact here y member

omit [Scalar α] in
theorem foldl_link_along (along : Along r neighbours)
    (ends : ∀ e ∈ edges, r e.a e.b ∧ r e.b e.a) :
    Along r (edges.foldl WeightedGraph.link neighbours) := by
  induction edges generalizing neighbours with
  | nil => exact along
  | cons e rest ih =>
    obtain ⟨⟨there, back⟩, others⟩ := List.forall_mem_cons.mp ends
    exact ih ((along.modify_cons there).modify_cons back) others

/-- What holds between the ends of the edges, both ways, holds between the neighbours. -/
theorem make_along {loops : Array α} (ends : ∀ e ∈ edges, r e.a e.b ∧ r e.b e.a) :
    Along r (WeightedGraph.make edges loops).neighbours := by
  have unlinked : Along r (loops.map fun _ => ([] : List (Nat × α))) := by
    intro node x member
    rw [Array.getD_eq_getD_getElem?, Array.getElem?_map] at member
    cases found : loops[node]? with
    | none => simp [found] at member
    | some w => simp [found] at member
  have along := foldl_link_along unlinked ends
  intro node x member
  apply along node x
  rw [WeightedGraph.make, Array.getD_eq_getD_getElem?, Array.getElem?_map] at member
  rw [Array.getD_eq_getD_getElem?]
  cases found : (edges.foldl WeightedGraph.link (loops.map fun _ => []))[node]? with
  | none => simp [found] at member
  | some links => simpa [found] using member

omit [Scalar α] in
theorem size_foldl_link : (edges.foldl WeightedGraph.link neighbours).size = neighbours.size := by
  induction edges generalizing neighbours with
  | nil => rfl
  | cons e rest ih =>
    rw [List.foldl_cons, ih, WeightedGraph.link, Array.size_modify, Array.size_modify]

theorem size_foldl_addDegree {degree : Array α} :
    (edges.foldl WeightedGraph.addDegree degree).size = degree.size := by
  induction edges generalizing degree with
  | nil => rfl
  | cons e rest ih =>
    rw [List.foldl_cons, ih, WeightedGraph.addDegree, Array.size_modify, Array.size_modify]

/-- Edges between `n` nodes make a graph of `n` nodes. -/
theorem make_sized {loops : Array α} (size : loops.size = n)
    (ends : ∀ e ∈ edges, e.a < n ∧ e.b < n) : (WeightedGraph.make edges loops).Sized n := by
  refine ⟨?_, size, ?_, make_along (r := fun _ j => j < n) fun e member => (ends e member).symm⟩
  · rw [WeightedGraph.make, Array.size_map, size_foldl_link, Array.size_map, size]
  · rw [WeightedGraph.make, size_foldl_addDegree, Array.size_map, size]

end

/-! ### Moving -/

/-- Clusters of `n` nodes, all of them among `n`. -/
structure Moving.Sized (s : Moving α) (n : Nat) : Prop where
  cluster : s.cluster.size = n
  sigma : s.sigma.size = n
  inside : ∀ c ∈ s.cluster, c < n

section

variable {g : WeightedGraph α} {s : Moving α}

omit [Scalar α] in
theorem getD_lt {xs : Array Nat} {i d : Nat} (inside : ∀ c ∈ xs, c < n) (bound : i < xs.size) :
    xs.getD i d < n := by
  rw [Array.getD_eq_getD_getElem?, Array.getElem?_eq_getElem bound]
  exact inside _ (Array.getElem_mem bound)

omit [Scalar α] in
theorem Moving.Sized.clusterOf_lt (sized : s.Sized n) {node : Nat} (known : node < n) :
    s.clusterOf node < n :=
  getD_lt sized.inside (by rwa [sized.cluster])

theorem linksOf_lt (graph : g.Sized n) (sized : s.Sized n) (node : Nat) :
    ∀ c ∈ (linksOf g s node).map Prod.fst, c < n := by
  refine List.foldlRecOn
    (motive := fun links : Weights Nat α => ∀ c ∈ links.map Prod.fst, c < n) _ _ (by simp) ?_
  rintro links all ⟨neighbour, w⟩ member c listed
  rcases Weights.mem_keys_add.mp listed with rfl | before
  · exact sized.clusterOf_lt (graph.linked node _ member)
  · exact all c before

/-- The best cluster is the one found so far or a candidate. -/
theorem bestCluster_mem (gainOf : Nat → α → α) (best : Nat × α) (links : Weights Nat α) :
    (bestCluster gainOf best links).1 = best.1 ∨
      (bestCluster gainOf best links).1 ∈ links.map Prod.fst := by
  induction links generalizing best with
  | nil => exact .inl rfl
  | cons link rest ih =>
    obtain ⟨candidate, inside⟩ := link
    simp only [bestCluster]
    split
    · rcases ih (candidate, gainOf candidate inside) with same | later
      · exact .inr (by simp [same])
      · exact .inr (List.mem_cons_of_mem _ later)
    · rcases ih best with same | later
      · exact .inl same
      · exact .inr (List.mem_cons_of_mem _ later)

theorem visit_sized (graph : g.Sized n) (resolution : α) (sized : s.Sized n) {node : Nat}
    (known : node < n) : (visit g resolution s node).Sized n := by
  refine ⟨?_, ?_, ?_⟩
  · rw [visit, Array.size_setIfInBounds, sized.cluster]
  · rw [visit, Array.size_modify, Array.size_modify, sized.sigma]
  · intro c member
    rw [visit] at member
    rcases Array.mem_or_eq_of_mem_setIfInBounds member with before | rfl
    · exact sized.inside c before
    · rcases bestCluster_mem _ _ (linksOf g s node) with same | candidate
      · rw [same]
        exact sized.clusterOf_lt known
      · exact linksOf_lt graph sized node _ candidate

theorem pass_sized (graph : g.Sized n) (resolution : α) (sized : s.Sized n) :
    (pass g resolution s).Sized n := by
  refine List.foldlRecOn (motive := fun s : Moving α => s.Sized n) _ _ ?_ ?_
  · exact ⟨sized.cluster, sized.sigma, sized.inside⟩
  · intro s before node member
    rw [WeightedGraph.size, graph.loops] at member
    exact visit_sized graph resolution before (List.mem_range.mp member)

theorem passes_sized (graph : g.Sized n) (resolution : α) (count : Nat) (sized : s.Sized n) :
    (passes g resolution count s).Sized n := by
  induction count generalizing s with
  | zero => exact sized
  | succ count ih =>
    have next := pass_sized graph resolution sized
    simp only [passes]
    split
    · exact ih next
    · exact next

theorem settle_sized (graph : g.Sized n) (resolution : α) : (settle g resolution).Sized n := by
  apply passes_sized graph
  refine ⟨?_, graph.degree, ?_⟩
  · rw [Moving.start, Array.size_range, WeightedGraph.size, graph.loops]
  · intro c member
    rw [Moving.start, WeightedGraph.size, graph.loops] at member
    exact Array.mem_range.mp member

end

/-! ### Coarser graphs -/

section

variable {g : WeightedGraph α} {cluster : Array Nat} {count : Nat}

theorem mem_firstOccurrences {c : Nat} (found rest : List Nat) :
    c ∈ firstOccurrences found rest ↔ c ∈ found ∨ c ∈ rest := by
  induction rest generalizing found with
  | nil => simp [firstOccurrences]
  | cons d rest ih =>
    simp only [firstOccurrences]
    split
    · next known =>
      have member : d ∈ found := List.contains_iff_mem.mp known
      rw [ih, List.mem_cons]
      constructor
      · rintro (before | later)
        · exact .inl before
        · exact .inr (.inr later)
      · rintro (before | rfl | later)
        · exact .inl before
        · exact .inl member
        · exact .inr later
    · rw [ih, List.mem_cons, List.mem_cons]
      tauto

theorem firstOccurrences_nodup {found : List Nat} (rest : List Nat) (once : found.Nodup) :
    (firstOccurrences found rest).Nodup := by
  induction rest generalizing found with
  | nil => exact List.nodup_reverse.mpr once
  | cons d rest ih =>
    simp only [firstOccurrences]
    split
    · exact ih once
    · next unknown =>
      have fresh : d ∉ found := by simpa using unknown
      exact ih (List.nodup_cons.mpr ⟨fresh, once⟩)

theorem length_firstOccurrences_le {xs : List Nat} (inside : ∀ c ∈ xs, c < n) :
    (firstOccurrences [] xs).length ≤ n := by
  have subset : firstOccurrences [] xs ⊆ List.range n := by
    intro c member
    rcases (mem_firstOccurrences [] xs).mp member with none | listed
    · cases none
    · exact List.mem_range.mpr (inside c listed)
  have once := firstOccurrences_nodup xs List.nodup_nil
  have length := (List.subperm_of_subset once subset).length_le
  rwa [List.length_range] at length

/-- A coarser level that is being made, of `count` nodes. -/
structure Merging.Sized (s : Merging α) (count : Nat) : Prop where
  loops : s.loops.size = count
  between : ∀ p ∈ s.between.map Prod.fst, p.first < count ∧ p.second < count

theorem mergeEdge_sized {s : Merging α} (sized : s.Sized count)
    (inside : ∀ c ∈ cluster, c < count) {node : Nat} (known : node < cluster.size)
    {edge : Nat × α} (end' : edge.1 < cluster.size) :
    (mergeEdge cluster node s edge).Sized count := by
  have first : cluster.getD node 0 < count := getD_lt inside known
  have second : cluster.getD edge.1 0 < count := getD_lt inside end'
  unfold mergeEdge
  generalize cluster.getD node 0 = c at first ⊢
  generalize cluster.getD edge.1 0 = d at second ⊢
  dsimp only
  split_ifs
  · exact sized
  · exact ⟨by rw [Array.size_modify, sized.loops], sized.between⟩
  · refine ⟨sized.loops, ?_⟩
    intro p member
    rcases Weights.mem_keys_add.mp member with rfl | before
    · exact ⟨min_lt_of_left_lt first, max_lt first second⟩
    · exact sized.between p before

theorem mergeNode_sized (graph : g.Sized n) (size : cluster.size = n)
    (inside : ∀ c ∈ cluster, c < count) {s : Merging α} (sized : s.Sized count) {node : Nat}
    (known : node < n) : (mergeNode g cluster s node).Sized count := by
  refine List.foldlRecOn (motive := fun s : Merging α => s.Sized count) _ _ ?_ ?_
  · exact ⟨by rw [Array.size_modify, sized.loops], sized.between⟩
  · intro s before edge member
    have end' : edge.1 < cluster.size := by
      rw [size]
      exact graph.linked node edge member
    exact mergeEdge_sized before inside (by rwa [size]) end'

/-- The sums of a coarser level when all nodes have been added. -/
def merged (g : WeightedGraph α) (cluster : Array Nat) (count : Nat) : Merging α :=
  (List.range g.size).foldl (mergeNode g cluster) ⟨Array.replicate count Scalar.zero, []⟩

theorem merged_sized (graph : g.Sized n) (size : cluster.size = n)
    (inside : ∀ c ∈ cluster, c < count) : (merged g cluster count).Sized count := by
  refine List.foldlRecOn (motive := fun s : Merging α => s.Sized count) _ _ ?_ ?_
  · exact ⟨Array.size_replicate, by simp⟩
  · intro s before node member
    rw [WeightedGraph.size, graph.loops] at member
    exact mergeNode_sized graph size inside before (List.mem_range.mp member)

/-- The clusters of a graph make a graph of as many nodes. -/
theorem coarsen_sized (graph : g.Sized n) (size : cluster.size = n)
    (inside : ∀ c ∈ cluster, c < count) : (coarsen g cluster count).Sized count := by
  have sums := merged_sized graph size inside
  apply make_sized sums.loops
  intro e member
  obtain ⟨x, listed, rfl⟩ := List.mem_map.mp member
  exact sums.between _ (List.mem_map_of_mem listed)

/-- A pair with a weight after an edge is that of the edge's clusters or had a weight before. -/
theorem between_mergeEdge {s : Merging α} {node : Nat} {edge : Nat × α} {p : Pair}
    (member : p ∈ (mergeEdge cluster node s edge).between.map Prod.fst) :
    p = Pair.of (cluster.getD node 0) (cluster.getD edge.1 0) ∨ p ∈ s.between.map Prod.fst := by
  unfold mergeEdge at member
  dsimp only at member
  split_ifs at member
  · exact .inr member
  · exact .inr member
  · exact Weights.mem_keys_add.mp member

/-- What holds, both ways, between the clusters of neighbours holds between neighbouring clusters. -/
theorem coarsen_along {r : Nat → Nat → Prop}
    (joined : ∀ node < g.size, ∀ x ∈ g.neighbours.getD node [],
      r (cluster.getD node 0) (cluster.getD x.1 0) ∧ r (cluster.getD x.1 0) (cluster.getD node 0)) :
    Along r (coarsen g cluster count).neighbours := by
  have merged : ∀ p ∈ ((List.range g.size).foldl (mergeNode g cluster)
      ⟨Array.replicate count Scalar.zero, []⟩).between.map Prod.fst,
      r p.first p.second ∧ r p.second p.first := by
    refine List.foldlRecOn (motive := fun s : Merging α =>
      ∀ p ∈ s.between.map Prod.fst, r p.first p.second ∧ r p.second p.first) _ _ (by simp) ?_
    intro s before node inside
    refine List.foldlRecOn (motive := fun s : Merging α =>
      ∀ p ∈ s.between.map Prod.fst, r p.first p.second ∧ r p.second p.first) _ _ before ?_
    intro s before x member p listed
    rcases between_mergeEdge listed with rfl | old
    · have both := joined node (List.mem_range.mp inside) x member
      rcases Nat.le_total (cluster.getD node 0) (cluster.getD x.1 0) with le | le
      · rw [Pair.of, min_eq_left le, max_eq_right le]
        exact both
      · rw [Pair.of, min_eq_right le, max_eq_left le]
        exact both.symm
    · exact before p old
  apply make_along
  intro e member
  obtain ⟨x, listed, rfl⟩ := List.mem_map.mp member
  exact merged _ (List.mem_map_of_mem listed)

end

/-! ### Levels -/

theorem size_levels (resolution : α) (steps : Nat) (g : WeightedGraph α) (membership : Array Nat) :
    (levels resolution steps g membership).size = membership.size := by
  induction steps generalizing g membership with
  | zero => rfl
  | succ steps ih =>
    simp only [levels]
    split
    · rw [ih, Array.size_map]
    · rfl

/-- On every level a member is in one of the level's nodes, of which there are no more than on the
level before. -/
theorem levels_lt {g : WeightedGraph α} {membership : Array Nat} (graph : g.Sized n)
    (inside : ∀ m ∈ membership, m < n) (resolution : α) (steps : Nat) :
    ∀ c ∈ levels resolution steps g membership, c < n := by
  induction steps generalizing g membership n with
  | zero => exact inside
  | succ steps ih =>
    have sized := settle_sized graph resolution
    simp only [levels]
    split
    · set s := settle g resolution
      set distinct := firstOccurrences [] s.cluster.toList
      have named : ∀ c ∈ s.cluster.map fun c => distinct.idxOf c, c < distinct.length := by
        intro i member
        obtain ⟨c, listed, rfl⟩ := Array.mem_map.mp member
        apply List.idxOf_lt_length_of_mem
        exact (mem_firstOccurrences [] _).mpr (.inr (Array.mem_toList_iff.mpr listed))
      have size : (s.cluster.map fun c => distinct.idxOf c).size = n := by
        rw [Array.size_map, sized.cluster]
      -- Looking up where a node went turns names of this level into names of the coarser one.
      have coarser := coarsen_sized graph size named
      have fewer : distinct.length ≤ n :=
        length_firstOccurrences_le fun c member =>
          sized.inside c (Array.mem_toList_iff.mp member)
      intro c member
      refine lt_of_lt_of_le (ih coarser ?_ c member) fewer
      intro m moved
      obtain ⟨node, before, rfl⟩ := Array.mem_map.mp moved
      exact getD_lt named (by rw [size]; exact inside node before)
    · exact inside

/-- A clustering of `n` nodes gives each of them a number below `n`. -/
theorem cluster?_lt {edges : List (WeightedEdge α)} {resolution : α} {assignment : Array Nat}
    (found : cluster? n edges resolution = some assignment) :
    assignment.size = n ∧ ∀ c ∈ assignment, c < n := by
  simp only [cluster?] at found
  split_ifs at found with unsound usable
  have sound : edges.all (WeightedEdge.isSound n) = true := by simpa using unsound
  have ends : ∀ e ∈ edges, e.a < n ∧ e.b < n := by
    intro e member
    have whole := List.all_eq_true.mp sound e member
    simp only [WeightedEdge.isSound, Bool.and_eq_true, decide_eq_true_eq] at whole
    exact ⟨whole.1.1.1, whole.1.1.2⟩
  obtain rfl := Option.some.inj found
  refine ⟨by rw [size_levels, Array.size_range], ?_⟩
  apply levels_lt (make_sized Array.size_replicate ends)
  intro m member
  exact Array.mem_range.mp member

end CodeAtlas.Clustering
