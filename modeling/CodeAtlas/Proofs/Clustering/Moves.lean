import CodeAtlas.Proofs.Clustering.Exact
import CodeAtlas.Proofs.Clustering.Outcomes

/-!
# Moves raise the modularity

The sums that are kept for the clusters are their degrees whenever no node is being visited. So a node
is compared by what it really gains in each cluster; it goes to another one only if it gains more
there, and with its gain the modularity grows.
-/

namespace CodeAtlas.Clustering

/-- The states of a level between the visits of nodes, whichever nodes are visited. -/
inductive Reached (g : WeightedGraph ℚ) (resolution : ℚ) : Moving ℚ → Prop where
  | start : Reached g resolution (Moving.start g)
  | pass {s : Moving ℚ} : Reached g resolution s → Reached g resolution { s with moved := false }
  | visit {s : Moving ℚ} {node : Nat} : Reached g resolution s → node < g.size →
      Reached g resolution (visit g resolution s node)

section

variable {g : WeightedGraph ℚ} {resolution : ℚ} {s : Moving ℚ} {node : Nat}

theorem Reached.pass_nodes (reached : Reached g resolution s) :
    Reached g resolution (Clustering.pass g resolution s) := by
  refine List.foldlRecOn (motive := Reached g resolution) _ _ reached.pass ?_
  intro s before node member
  exact before.visit (List.mem_range.mp member)

theorem Reached.passes (reached : Reached g resolution s) (count : Nat) :
    Reached g resolution (Clustering.passes g resolution count s) := by
  induction count generalizing s with
  | zero => exact reached
  | succ count ih =>
    have next := reached.pass_nodes
    simp only [Clustering.passes]
    split
    · exact ih next
    · exact next

theorem settle_reached (g : WeightedGraph ℚ) (resolution : ℚ) :
    Reached g resolution (settle g resolution) :=
  Reached.start.passes mostPasses

/-! ### The choice of a cluster -/

/-- The sums of the degrees after a node has been taken out of its cluster. -/
def sigmaBeside (g : WeightedGraph ℚ) (s : Moving ℚ) (node : Nat) : Array ℚ :=
  s.sigma.modify (s.clusterOf node) (· - g.degreeOf node)

/-- What a node gains in a cluster to which it is linked with some weight, by the sums that are
kept. -/
def gainBy (g : WeightedGraph ℚ) (resolution : ℚ) (s : Moving ℚ) (node c : Nat) (inside : ℚ) : ℚ :=
  gain resolution g.total (g.degreeOf node) ((sigmaBeside g s node).getD c Scalar.zero) inside

/-- The cluster to which a node goes. -/
def chosen (g : WeightedGraph ℚ) (resolution : ℚ) (s : Moving ℚ) (node : Nat) : Nat :=
  (bestCluster (gainBy g resolution s node) (s.clusterOf node, gainBy g resolution s node
    (s.clusterOf node) (Weights.weight (s.clusterOf node) (linksOf g s node)))
      (linksOf g s node)).1

theorem visit_eq (g : WeightedGraph ℚ) (resolution : ℚ) (s : Moving ℚ) (node : Nat) :
    visit g resolution s node =
      { cluster := s.cluster.setIfInBounds node (chosen g resolution s node)
        sigma := (sigmaBeside g s node).modify (chosen g resolution s node) (· + g.degreeOf node)
        moved := s.moved || chosen g resolution s node != s.clusterOf node
        improved := s.improved || chosen g resolution s node != s.clusterOf node } :=
  rfl

/-- The threshold of gains is positive. -/
theorem gainThreshold_pos : (0 : ℚ) < gainThreshold := by
  show (0 : ℚ) < mkRat 1 (10 ^ 12)
  rw [Rat.mkRat_eq_div]
  norm_num

/-- The best cluster is the one found so far or a candidate in which more is gained. -/
theorem bestCluster_gain (gainOf : Nat → ℚ → ℚ) (best : Nat × ℚ) (links : Weights Nat ℚ) :
    bestCluster gainOf best links = best ∨ ∃ link ∈ links,
      bestCluster gainOf best links = (link.1, gainOf link.1 link.2) ∧
        best.2 < gainOf link.1 link.2 := by
  induction links generalizing best with
  | nil => exact .inl rfl
  | cons link rest ih =>
    obtain ⟨candidate, inside⟩ := link
    simp only [bestCluster]
    split
    · next better =>
      have more : best.2 < gainOf candidate inside := by
        have order : best.2 + gainThreshold < gainOf candidate inside := of_decide_eq_true better
        have positive := gainThreshold_pos
        linarith
      rcases ih (candidate, gainOf candidate inside) with same | ⟨link, later, same, order⟩
      · exact .inr ⟨(candidate, inside), List.mem_cons_self, same, more⟩
      · exact .inr ⟨link, List.mem_cons_of_mem _ later, same, more.trans order⟩
    · rcases ih best with same | ⟨link, later, same, order⟩
      · exact .inl same
      · exact .inr ⟨link, List.mem_cons_of_mem _ later, same, order⟩

theorem chosen_lt {n : Nat} (graph : g.Sized n) (resolution : ℚ) (sized : s.Sized n)
    (known : node < n) : chosen g resolution s node < n := by
  unfold chosen
  rcases bestCluster_mem (gainBy g resolution s node) _ (linksOf g s node) with same | candidate
  · rw [same]
    exact sized.clusterOf_lt known
  · exact linksOf_lt graph sized node _ candidate

/-- After a visit the clusters are as before, but for the node that was visited. -/
theorem clusterOf_visit (inside : node < s.cluster.size) :
    (visit g resolution s node).clusterOf =
      Function.update s.clusterOf node (chosen g resolution s node) := by
  funext i
  rw [visit_eq, Moving.clusterOf, Array.getD_eq_getD_getElem?, Array.getElem?_setIfInBounds,
    Function.update_apply]
  by_cases same : i = node
  · subst same
    simp [inside]
  · rw [if_neg (Ne.symm same), if_neg same, Moving.clusterOf, Array.getD_eq_getD_getElem?]

end

namespace Network

section

variable {N : Network} {resolution : ℚ} {s : Moving ℚ} {node c : Nat}

/-- The arrays of a state fit, and the sums that it keeps are the degrees in the clusters. -/
structure Accounts (N : Network) (s : Moving ℚ) : Prop where
  sized : s.Sized N.size
  sigma : ∀ c < N.size, s.sigma.getD c 0 = N.degreeIn s.clusterOf c

theorem Proper.sigmaBeside_eq (proper : N.Proper) (accounts : N.Accounts s) (known : node < N.size)
    (cluster : c < N.size) :
    (sigmaBeside N.graph s node).getD c 0 = N.degreeBeside s.clusterOf node c := by
  have inside : s.clusterOf node < s.sigma.size := by
    rw [accounts.sized.sigma]
    exact accounts.sized.clusterOf_lt known
  rw [sigmaBeside, getD_modify inside, proper.graph_degreeOf known, accounts.sigma c cluster,
    degreeBeside]
  split_ifs <;> ring

/-- By the sums that are kept a node is compared by what it gains. -/
theorem Proper.gainBy_eq (proper : N.Proper) (accounts : N.Accounts s) (known : node < N.size)
    (cluster : c < N.size) :
    gainBy N.graph resolution s node c (N.link s.clusterOf node c) =
      N.gainOf resolution s.clusterOf node c := by
  rw [gainBy, gainOf, scalar_zero_eq, proper.sigmaBeside_eq accounts known cluster,
    proper.graph_degreeOf known, proper.graph_total]

/-- A node goes to another cluster only if it gains more there. -/
theorem Proper.chosen_gain (proper : N.Proper) (accounts : N.Accounts s) (known : node < N.size) :
    chosen N.graph resolution s node = s.clusterOf node ∨
      N.gainOf resolution s.clusterOf node (s.clusterOf node) <
        N.gainOf resolution s.clusterOf node (chosen N.graph resolution s node) := by
  have here := accounts.sized.clusterOf_lt known
  have links := linksOf_lt proper.graph_sized accounts.sized node
  rcases bestCluster_gain (gainBy N.graph resolution s node) (s.clusterOf node,
    gainBy N.graph resolution s node (s.clusterOf node)
      (Weights.weight (s.clusterOf node) (linksOf N.graph s node)))
    (linksOf N.graph s node) with same | ⟨link, listed, same, more⟩
  · exact .inl (congrArg Prod.fst same)
  · have there : chosen N.graph resolution s node = link.1 := by rw [chosen, same]
    have cluster : link.1 < N.size := links link.1 (List.mem_map_of_mem listed)
    have weight : link.2 = N.link s.clusterOf node link.1 := by
      rw [← proper.weight_linksOf]
      exact ((linksOf_sorted N.graph s node).weight_eq listed).symm
    rw [weight, proper.weight_linksOf, proper.gainBy_eq accounts known here,
      proper.gainBy_eq accounts known cluster] at more
    rw [there]
    exact .inr more

theorem clusterOf_start (g : WeightedGraph ℚ) : (Moving.start g).clusterOf = id := by
  funext i
  rw [Moving.clusterOf, Moving.start, Array.getD_eq_getD_getElem?, Array.getElem?_range]
  split <;> rfl

theorem Proper.start_accounts (proper : N.Proper) : N.Accounts (Moving.start N.graph) := by
  refine ⟨⟨Array.size_range, proper.graph_sized.degree, ?_⟩, ?_⟩
  · intro c member
    exact Array.mem_range.mp member
  · intro c known
    rw [clusterOf_start, degreeIn]
    simp only [id, Finset.filter_eq', Finset.mem_range, known, if_true, Finset.sum_singleton]
    rw [← proper.graph_degreeOf known, WeightedGraph.degreeOf, scalar_zero_eq]
    rfl

theorem Proper.visit_accounts (proper : N.Proper) (resolution : ℚ) (accounts : N.Accounts s)
    (known : node < N.size) : N.Accounts (visit N.graph resolution s node) := by
  have graph := proper.graph_sized
  have target := chosen_lt graph resolution accounts.sized known
  refine ⟨visit_sized graph resolution accounts.sized known, ?_⟩
  intro c cluster
  have inside : chosen N.graph resolution s node < (sigmaBeside N.graph s node).size := by
    rwa [sigmaBeside, Array.size_modify, accounts.sized.sigma]
  rw [clusterOf_visit (by rwa [accounts.sized.cluster]), degreeIn_update known, visit_eq]
  dsimp only
  rw [getD_modify inside, proper.sigmaBeside_eq accounts known cluster, proper.graph_degreeOf known]
  split_ifs <;> ring

theorem Proper.accounts (proper : N.Proper) (reached : Reached N.graph resolution s) :
    N.Accounts s := by
  induction reached with
  | start => exact proper.start_accounts
  | pass _ ih => exact ⟨⟨ih.sized.cluster, ih.sized.sigma, ih.sized.inside⟩, ih.sigma⟩
  | visit _ known ih => exact proper.visit_accounts resolution ih known

/-! ### Ascent -/

/-- A visit leaves a node where it is or raises the modularity. -/
theorem Proper.visit_raises (proper : N.Proper) (positive : 0 < N.mass) (resolution : ℚ)
    (accounts : N.Accounts s) (known : node < N.size) :
    chosen N.graph resolution s node = s.clusterOf node ∨
      N.modularity resolution s.clusterOf <
        N.modularity resolution (visit N.graph resolution s node).clusterOf := by
  refine (proper.chosen_gain accounts known).imp_right fun more => ?_
  have difference := proper.modularity_update_sub positive resolution s.clusterOf known
    (s.clusterOf node) (chosen N.graph resolution s node)
  have growth := div_pos (sub_pos.mpr more) positive
  rw [Function.update_eq_self, ← clusterOf_visit (by rwa [accounts.sized.cluster])] at difference
  linarith

/-- No state of a level has less modularity than its start, and where something has moved since then
there is more. -/
theorem Proper.ascends (proper : N.Proper) (positive : 0 < N.mass)
    (reached : Reached N.graph resolution s) :
    N.modularity resolution id ≤ N.modularity resolution s.clusterOf ∧
      (s.improved = true → N.modularity resolution id < N.modularity resolution s.clusterOf) := by
  induction reached with
  | start =>
    rw [clusterOf_start]
    exact ⟨le_rfl, fun improved => by cases improved⟩
  | pass _ ih => exact ih
  | @visit s node reached known ih =>
    obtain ⟨atLeast, strict⟩ := ih
    have accounts := proper.accounts reached
    rcases proper.visit_raises positive resolution accounts known with stays | more
    · rw [clusterOf_visit (by rwa [accounts.sized.cluster]), stays, Function.update_eq_self]
      refine ⟨atLeast, fun improved => strict ?_⟩
      simpa [visit_eq, stays] using improved
    · have greater := atLeast.trans_lt more
      exact ⟨greater.le, fun _ => greater⟩

end

end Network

end CodeAtlas.Clustering
