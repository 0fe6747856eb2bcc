import CodeAtlas.Proofs.Clustering.Levels

/-!
# Clusterings, however gains compare

Which cluster a node moves to is decided by comparing gains. Here nothing is said about how they
compare: a node may move to any cluster around it, at any time, and any number of levels may follow.
The clustering is one of these outcomes. In none of them does a cluster hold nodes of two colours, if
edges join nodes of one colour only.
-/

namespace CodeAtlas.Clustering

variable {α : Type} [Scalar α] {n : Nat}

/-! ### Outcomes -/

/-- The clusters of a level after any moves of its nodes, each to the cluster of a neighbour. -/
inductive Moved (g : WeightedGraph α) : Array Nat → Prop where
  | start : Moved g (Array.range g.size)
  | move {cluster : Array Nat} {node : Nat} {x : Nat × α} :
      Moved g cluster → x ∈ g.neighbours.getD node [] →
        Moved g (cluster.setIfInBounds node (cluster.getD x.1 x.1))

/-- The numbers of the clusters in order of their first nodes. -/
def clusterNumbers (cluster : Array Nat) : List Nat :=
  firstOccurrences [] cluster.toList

/-- The clusters under numbers without gaps. -/
def renumbered (cluster : Array Nat) : Array Nat :=
  cluster.map fun c => (clusterNumbers cluster).idxOf c

/-- What may become of the members of a level's nodes: any moves, then the same on the level of the
clusters, any number of times. -/
inductive Outcome : WeightedGraph α → Array Nat → Array Nat → Prop where
  | done {g : WeightedGraph α} {membership : Array Nat} : Outcome g membership membership
  | coarser {g : WeightedGraph α} {membership cluster result : Array Nat} : Moved g cluster →
      Outcome (coarsen g (renumbered cluster) (clusterNumbers cluster).length)
        (membership.map fun m => (renumbered cluster).getD m 0) result →
      Outcome g membership result

/-! ### The clustering is an outcome -/

section

variable {g : WeightedGraph α} {s : Moving α}

/-- The clusters around a node are those of its neighbours. -/
theorem exists_neighbour_of_link {node c : Nat} (linked : c ∈ (linksOf g s node).map Prod.fst) :
    ∃ x ∈ g.neighbours.getD node [], c = s.clusterOf x.1 := by
  have all : ∀ c ∈ (linksOf g s node).map Prod.fst,
      ∃ x ∈ g.neighbours.getD node [], c = s.clusterOf x.1 := by
    refine List.foldlRecOn (motive := fun links : Weights Nat α =>
      ∀ c ∈ links.map Prod.fst, ∃ x ∈ g.neighbours.getD node [], c = s.clusterOf x.1)
      _ _ (by simp) ?_
    intro links all x member c listed
    rcases Weights.mem_keys_add.mp listed with rfl | before
    · exact ⟨x, member, rfl⟩
    · exact all c before
  exact all c linked

omit [Scalar α] in
theorem setIfInBounds_getD (xs : Array Nat) (i d : Nat) :
    xs.setIfInBounds i (xs.getD i d) = xs := by
  apply Array.ext_getElem?
  intro j
  rw [Array.getElem?_setIfInBounds]
  split
  · next same =>
    subst same
    split
    · next inside => simp [inside]
    · next outside => rw [Array.getElem?_eq_none (Nat.le_of_not_lt outside)]
  · rfl

theorem visit_moved (resolution : α) (moved : Moved g s.cluster) (node : Nat) :
    Moved g (visit g resolution s node).cluster := by
  rw [visit]
  rcases bestCluster_mem _ _ (linksOf g s node) with same | candidate
  · dsimp only
    rw [same, Moving.clusterOf, setIfInBounds_getD]
    exact moved
  · obtain ⟨x, member, here⟩ := exists_neighbour_of_link candidate
    dsimp only
    rw [here, Moving.clusterOf]
    exact .move moved member

theorem pass_moved (resolution : α) (moved : Moved g s.cluster) :
    Moved g (pass g resolution s).cluster :=
  List.foldlRecOn (motive := fun s : Moving α => Moved g s.cluster) _ _ moved
    fun _ before node _ => visit_moved resolution before node

theorem passes_moved (resolution : α) (count : Nat) (moved : Moved g s.cluster) :
    Moved g (passes g resolution count s).cluster := by
  induction count generalizing s with
  | zero => exact moved
  | succ count ih =>
    have next := pass_moved resolution moved
    simp only [passes]
    split
    · exact ih next
    · exact next

theorem settle_moved (g : WeightedGraph α) (resolution : α) :
    Moved g (settle g resolution).cluster :=
  passes_moved resolution mostPasses .start

theorem levels_outcome (resolution : α) (steps : Nat) (g : WeightedGraph α)
    (membership : Array Nat) : Outcome g membership (levels resolution steps g membership) := by
  induction steps generalizing g membership with
  | zero => exact .done
  | succ steps ih =>
    simp only [levels]
    split
    · exact .coarser (settle_moved g resolution) (ih _ _)
    · exact .done

/-- What some nodes and edges may be clustered to. -/
def OutcomeOf (n : Nat) (edges : List (WeightedEdge α)) (assignment : Array Nat) : Prop :=
  Outcome (WeightedGraph.make edges (Array.replicate n Scalar.zero)) (Array.range n) assignment

/-- The clustering of nodes and edges is one of the outcomes. -/
theorem cluster?_outcome {edges : List (WeightedEdge α)} {resolution : α} {assignment : Array Nat}
    (found : cluster? n edges resolution = some assignment) : OutcomeOf n edges assignment := by
  simp only [cluster?] at found
  split_ifs at found
  obtain rfl := Option.some.inj found
  exact levels_outcome resolution mostLevels _ _

end

/-! ### Colours -/

section

variable {γ : Type} {g : WeightedGraph α} {colour : Nat → γ} {cluster : Array Nat}

/-- Neighbours are of one colour. -/
def Even (colour : Nat → γ) (g : WeightedGraph α) : Prop :=
  Along (fun i j => colour i = colour j) g.neighbours

/-- Clusters of `n` nodes under numbers of nodes, each of the colour of the node of its number. -/
structure Tinted (colour : Nat → γ) (n : Nat) (cluster : Array Nat) : Prop where
  size : cluster.size = n
  inside : ∀ c ∈ cluster, c < n
  same : ∀ node, colour (cluster.getD node node) = colour node

omit [Scalar α] in
theorem Moved.tinted (graph : g.Sized n) (even : Even colour g) (moved : Moved g cluster) :
    Tinted colour n cluster := by
  induction moved with
  | start =>
    rw [WeightedGraph.size, graph.loops]
    refine ⟨Array.size_range, fun c member => Array.mem_range.mp member, ?_⟩
    intro node
    rw [Array.getD_eq_getD_getElem?]
    by_cases inside : node < n
    · simp [inside]
    · simp [inside]
  | @move cluster target x _ joined ih =>
    refine ⟨by rw [Array.size_setIfInBounds, ih.size], ?_, ?_⟩
    · intro c member
      rcases Array.mem_or_eq_of_mem_setIfInBounds member with before | rfl
      · exact ih.inside c before
      · exact getD_lt ih.inside (by rw [ih.size]; exact graph.linked target x joined)
    · intro node
      rw [Array.getD_eq_getD_getElem?, Array.getElem?_setIfInBounds]
      split
      · next here =>
        subst here
        split
        · rw [Option.getD_some, ih.same, even target x joined]
        · rfl
      · rw [← Array.getD_eq_getD_getElem?]
        exact ih.same node

/-- The colour of a cluster by its new number. -/
def clusterColour (colour : Nat → γ) (cluster : Array Nat) (i : Nat) : γ :=
  colour ((clusterNumbers cluster).getD i 0)

theorem renumbered_lt : ∀ i ∈ renumbered cluster, i < (clusterNumbers cluster).length := by
  intro i member
  obtain ⟨c, listed, rfl⟩ := Array.mem_map.mp member
  apply List.idxOf_lt_length_of_mem
  exact (mem_firstOccurrences [] _).mpr (.inr (Array.mem_toList_iff.mpr listed))

/-- The new number of a node's cluster is the place of the cluster among all of them. -/
theorem getD_renumbered {node : Nat} (known : node < cluster.size) :
    (renumbered cluster).getD node 0 = (clusterNumbers cluster).idxOf (cluster.getD node node) := by
  simp only [renumbered, Array.getD_eq_getD_getElem?, Array.getElem?_map,
    Array.getElem?_eq_getElem known, Option.map_some, Option.getD_some]

theorem getD_mem_clusterNumbers {node : Nat} (known : node < cluster.size) :
    cluster.getD node node ∈ clusterNumbers cluster := by
  refine (mem_firstOccurrences [] _).mpr (.inr (Array.mem_toList_iff.mpr ?_))
  rw [Array.getD_eq_getD_getElem?, Array.getElem?_eq_getElem known]
  exact Array.getElem_mem known

/-- A node's cluster, under its new number, has the colour of the node. -/
theorem Tinted.clusterColour_eq (tinted : Tinted colour n cluster) {node : Nat} (known : node < n) :
    clusterColour colour cluster ((renumbered cluster).getD node 0) = colour node := by
  have bound : node < cluster.size := by rwa [tinted.size]
  have listed := getD_mem_clusterNumbers bound
  have found := List.getElem_idxOf (List.idxOf_lt_length_of_mem listed)
  rw [getD_renumbered bound, clusterColour, List.getD_eq_getElem?_getD,
    List.getElem?_eq_getElem (List.idxOf_lt_length_of_mem listed), found, Option.getD_some,
    tinted.same node]

/-- The clusters make a graph whose neighbours are of one colour again. -/
theorem Tinted.coarsen_even (tinted : Tinted colour n cluster) (graph : g.Sized n)
    (even : Even colour g) : Even (clusterColour colour cluster)
      (coarsen g (renumbered cluster) (clusterNumbers cluster).length) := by
  have joined : ∀ node < n, ∀ x ∈ g.neighbours.getD node [],
      clusterColour colour cluster ((renumbered cluster).getD node 0) =
        clusterColour colour cluster ((renumbered cluster).getD x.1 0) := by
    intro node known x member
    rw [tinted.clusterColour_eq known, tinted.clusterColour_eq (graph.linked node x member)]
    exact even node x member
  apply coarsen_along
  intro node known x member
  have known' : node < n := by rwa [WeightedGraph.size, graph.loops] at known
  have same := joined node known' x member
  exact ⟨same, same.symm⟩

theorem Outcome.size_eq {membership result : Array Nat} (outcome : Outcome g membership result) :
    result.size = membership.size := by
  induction outcome with
  | done => rfl
  | coarser _ _ ih => rw [ih, Array.size_map]

/-- After any outcome the colours of the members can be told from their clusters. -/
theorem Outcome.colours {membership result : Array Nat} (outcome : Outcome g membership result)
    (graph : g.Sized n) (even : Even colour g) (inside : ∀ m ∈ membership, m < n) :
    ∃ colour' : Nat → γ, ∀ i : Nat, (result[i]?).map colour' = (membership[i]?).map colour := by
  induction outcome generalizing n colour with
  | done => exact ⟨colour, fun _ => rfl⟩
  | @coarser g membership cluster result moved _ ih =>
    have tinted := moved.tinted graph even
    have size : (renumbered cluster).size = n := by rw [renumbered, Array.size_map, tinted.size]
    have next : ∀ m ∈ membership.map fun m => (renumbered cluster).getD m 0,
        m < (clusterNumbers cluster).length := by
      intro m moved
      obtain ⟨node, before, rfl⟩ := Array.mem_map.mp moved
      exact getD_lt renumbered_lt (by rw [size]; exact inside node before)
    obtain ⟨colour', told⟩ := ih (coarsen_sized graph size renumbered_lt)
      (tinted.coarsen_even graph even) next
    refine ⟨colour', fun i => ?_⟩
    rw [told i, Array.getElem?_map, Option.map_map]
    cases member : membership[i]? with
    | none => rfl
    | some m =>
      have known : m < n := inside m (Array.mem_of_getElem? member)
      exact congrArg some (tinted.clusterColour_eq known)

/-- In no outcome are nodes of different colours in one cluster. -/
theorem OutcomeOf.colour_eq {edges : List (WeightedEdge α)} {assignment : Array Nat}
    (outcome : OutcomeOf n edges assignment) (ends : ∀ e ∈ edges, e.a < n ∧ e.b < n)
    (even : ∀ e ∈ edges, colour e.a = colour e.b) :
    assignment.size = n ∧
      ∀ i < n, ∀ j < n, assignment[i]? = assignment[j]? → colour i = colour j := by
  have loops : (Array.replicate n (Scalar.zero : α)).size = n := Array.size_replicate
  have graph := make_sized loops ends
  have along : Even colour (WeightedGraph.make edges (Array.replicate n Scalar.zero)) :=
    make_along fun e member => ⟨even e member, (even e member).symm⟩
  obtain ⟨colour', told⟩ := outcome.colours graph along fun m member => Array.mem_range.mp member
  have known : ∀ i < n, (assignment[i]?).map colour' = some (colour i) := by
    intro i inside
    rw [told i, Array.getElem?_range, if_pos inside]
    rfl
  refine ⟨outcome.size_eq.trans Array.size_range, ?_⟩
  intro i hi j hj same
  apply Option.some.inj
  rw [← known i hi, ← known j hj, same]

end

end CodeAtlas.Clustering
