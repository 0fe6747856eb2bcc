import CodeAtlas.Proofs.Clustering.Levels
import CodeAtlas.Proofs.Clustering.Modularity

/-!
# What graphs with exact weights hold

Without rounding, every sum that is collected edge by edge can be told at once: the degrees of a graph,
the sum of these, what is summed over the neighbours of a node, and the weights between a node and the
clusters around it.
-/

namespace CodeAtlas.Clustering

open Finset

/-! ### Exact numbers -/

theorem scalar_zero_eq : (Scalar.zero : ℚ) = 0 :=
  Nat.cast_zero

theorem scalar_sum_eq (xs : List ℚ) : Scalar.sum xs = xs.sum := by
  rw [Scalar.sum, scalar_zero_eq, List.sum_eq_foldl]

section

variable {β : Type} {xs : Array β} {f : β → β} {i j : Nat} {d : β}

theorem getD_modify (inside : i < xs.size) :
    (xs.modify i f).getD j d = if i = j then f (xs.getD j d) else xs.getD j d := by
  rw [Array.getD_eq_getD_getElem?, Array.getD_eq_getD_getElem?, Array.getElem?_modify]
  split
  · next same =>
    subst same
    rw [Array.getElem?_eq_getElem inside]
    rfl
  · rfl

theorem getD_replicate_zero (n i : Nat) : (Array.replicate n (0 : ℚ)).getD i 0 = 0 := by
  rw [Array.getD_eq_getD_getElem?, Array.getElem?_replicate]
  split <;> rfl

theorem sum_toList (xs : Array ℚ) : xs.toList.sum = ∑ i ∈ range xs.size, xs.getD i 0 := by
  have listed : xs.toList = (List.range xs.size).map fun i => xs.getD i 0 := by
    apply List.ext_getElem
    · simp
    · intro i inside inside'
      have bound : i < xs.size := by simpa using inside
      simp [bound]
  rw [listed]
  rfl

end

/-! ### What an array of a graph holds -/

section

variable {edges : List (WeightedEdge ℚ)} {degree : Array ℚ} {neighbours : Array (List (Nat × ℚ))}

theorem getD_foldl_addDegree (ends : ∀ e ∈ edges, e.a < degree.size ∧ e.b < degree.size) (i : Nat) :
    (edges.foldl WeightedGraph.addDegree degree).getD i 0 = degree.getD i 0 +
      (edges.map fun e =>
        ((if e.a = i then 1 else 0) + if e.b = i then 1 else 0) * e.weight).sum := by
  induction edges generalizing degree with
  | nil => simp
  | cons e rest ih =>
    obtain ⟨⟨first, second⟩, others⟩ := List.forall_mem_cons.mp ends
    have size : (WeightedGraph.addDegree degree e).size = degree.size := by
      rw [WeightedGraph.addDegree, Array.size_modify, Array.size_modify]
    have once : (WeightedGraph.addDegree degree e).getD i 0 = degree.getD i 0 +
        ((if e.a = i then 1 else 0) + if e.b = i then 1 else 0) * e.weight := by
      rw [WeightedGraph.addDegree, getD_modify (by rwa [Array.size_modify]), getD_modify first]
      split_ifs <;> ring
    rw [List.foldl_cons, ih (by rwa [size]), once, List.map_cons, List.sum_cons]
    ring

/-- A sum over the neighbours of a node is one over the edges that have an end there. -/
theorem sum_foldl_link (ends : ∀ e ∈ edges, e.a < neighbours.size ∧ e.b < neighbours.size)
    (node : Nat) (f : Nat × ℚ → ℚ) :
    (((edges.foldl WeightedGraph.link neighbours).getD node []).map f).sum =
      ((neighbours.getD node []).map f).sum + (edges.map fun e =>
        (if e.a = node then f (e.b, e.weight) else 0) +
          if e.b = node then f (e.a, e.weight) else 0).sum := by
  induction edges generalizing neighbours with
  | nil => simp
  | cons e rest ih =>
    obtain ⟨⟨first, second⟩, others⟩ := List.forall_mem_cons.mp ends
    have size : (WeightedGraph.link neighbours e).size = neighbours.size := by
      rw [WeightedGraph.link, Array.size_modify, Array.size_modify]
    have once : (((WeightedGraph.link neighbours e).getD node []).map f).sum =
        ((neighbours.getD node []).map f).sum + ((if e.a = node then f (e.b, e.weight) else 0) +
          if e.b = node then f (e.a, e.weight) else 0) := by
      rw [WeightedGraph.link, getD_modify (by rwa [Array.size_modify]), getD_modify first]
      split_ifs <;> simp <;> ring
    rw [List.foldl_cons, ih (by rwa [size]), once, List.map_cons, List.sum_cons]
    ring

end

namespace Network

/-- The graph of a network. -/
def graph (N : Network) : WeightedGraph ℚ :=
  WeightedGraph.make N.edges N.loops

section

variable {N : Network} {node : Nat}

theorem Proper.graph_sized (proper : N.Proper) : N.graph.Sized N.size :=
  make_sized rfl proper.ends

theorem Proper.graph_degreeOf (proper : N.Proper) (known : node < N.size) :
    N.graph.degreeOf node = N.degree node := by
  have ends : ∀ e ∈ N.edges, e.a < (N.loops.map ((2 : ℚ) * ·)).size ∧
      e.b < (N.loops.map ((2 : ℚ) * ·)).size := by
    simp only [Array.size_map]
    exact proper.ends
  have loops : ∑ i ∈ range N.size, ((if i = node then (1 : ℚ) else 0) +
      if i = node then 1 else 0) * N.loops.getD i 0 = 2 * N.loops.getD node 0 := by
    have twice : ∀ i, ((if i = node then (1 : ℚ) else 0) + if i = node then 1 else 0) *
        N.loops.getD i 0 = if i = node then 2 * N.loops.getD i 0 else 0 := by
      intro i
      split_ifs <;> ring
    simp only [twice, sum_ite_eq', mem_range, known, if_true]
  have first : (N.loops.map ((2 : ℚ) * ·)).getD node 0 = 2 * N.loops.getD node 0 := by
    have inside : node < N.loops.size := known
    simp [inside]
  show (N.edges.foldl WeightedGraph.addDegree (N.loops.map ((2 : ℚ) * ·))).getD node Scalar.zero = _
  rw [scalar_zero_eq, getD_foldl_addDegree ends, first, degree, weigh, loops]
  ring

/-- The sum of the degrees is twice the weight. -/
theorem Proper.graph_total (proper : N.Proper) : N.graph.total = 2 * N.mass := by
  have size : N.graph.degree.size = N.size := proper.graph_sized.degree
  show Scalar.sum N.graph.degree.toList = _
  rw [scalar_sum_eq, sum_toList, size, ← proper.sum_degree]
  refine sum_congr rfl fun i inside => ?_
  have known := proper.graph_degreeOf (mem_range.mp inside)
  rwa [WeightedGraph.degreeOf, scalar_zero_eq] at known

theorem Proper.sum_neighbours (proper : N.Proper) (node : Nat) (f : Nat × ℚ → ℚ) :
    ((N.graph.neighbours.getD node []).map f).sum = (N.edges.map fun e =>
      (if e.a = node then f (e.b, e.weight) else 0) +
        if e.b = node then f (e.a, e.weight) else 0).sum := by
  have ends : ∀ e ∈ N.edges, e.a < (N.loops.map fun _ => ([] : List (Nat × ℚ))).size ∧
      e.b < (N.loops.map fun _ => ([] : List (Nat × ℚ))).size := by
    simp only [Array.size_map]
    exact proper.ends
  have linked := sum_foldl_link ends node f
  have none : (N.loops.map fun _ => ([] : List (Nat × ℚ))).getD node [] = [] := by
    rw [Array.getD_eq_getD_getElem?, Array.getElem?_map]
    cases N.loops[node]? <;> rfl
  have forwards : N.graph.neighbours.getD node [] =
      ((N.edges.foldl WeightedGraph.link (N.loops.map fun _ => [])).getD node []).reverse := by
    rw [graph, WeightedGraph.make, Array.getD_eq_getD_getElem?, Array.getD_eq_getD_getElem?,
      Array.getElem?_map]
    cases (N.edges.foldl WeightedGraph.link (N.loops.map fun _ => []))[node]? <;> rfl
  rw [none, List.map_nil, List.sum_nil, zero_add] at linked
  rw [forwards, List.map_reverse, List.sum_reverse, linked]

end

end Network

/-! ### Weights by key -/

namespace Weights

variable {κ : Type} [Ord κ] [Std.TransOrd κ] [Std.LawfulEqOrd κ] {weights : Weights κ ℚ} {key : κ}
  {v : ℚ}

omit [Std.TransOrd κ] in
/-- What is added to the weight of a key is added to every sum over the weights. -/
theorem sum_add (key : κ) (w : ℚ) (weights : Weights κ ℚ) (times : κ → ℚ) :
    ((add key w weights).map fun x => times x.1 * x.2).sum =
      (weights.map fun x => times x.1 * x.2).sum + times key * w := by
  induction weights with
  | nil => simp [add, scalar_zero_eq]
  | cons x rest ih =>
    obtain ⟨k, v⟩ := x
    unfold add
    cases order : compare key k with
    | lt =>
      simp only [List.map_cons, List.sum_cons, scalar_zero_eq]
      ring
    | eq =>
      obtain rfl := Std.LawfulEqOrd.eq_of_compare order
      simp only [List.map_cons, List.sum_cons]
      ring
    | gt =>
      simp only [List.map_cons, List.sum_cons, ih]
      ring

/-- In sorted weights the weight of a key is the one that is listed. -/
theorem Sorted.weight_eq (sorted : Sorted weights) (member : (key, v) ∈ weights) :
    weight key weights = v := by
  induction weights with
  | nil => cases member
  | cons x rest ih =>
    obtain ⟨k', v'⟩ := x
    obtain ⟨first, others⟩ := List.pairwise_cons.mp sorted
    rcases List.mem_cons.mp member with same | later
    · obtain ⟨rfl, rfl⟩ := Prod.mk.inj same
      simp [weight]
    · have less := first _ later
      have order : compare key k' = .gt := Std.OrientedCmp.gt_iff_lt.mpr less
      rw [weight, order]
      exact ih others later

omit [Std.TransOrd κ] in
theorem Sorted.weight_eq_sum [DecidableEq κ] (sorted : Sorted weights) (key : κ) :
    weight key weights = (weights.map fun x => (if x.1 = key then 1 else 0) * x.2).sum := by
  induction weights with
  | nil => exact scalar_zero_eq
  | cons x rest ih =>
    obtain ⟨k, v⟩ := x
    obtain ⟨first, others⟩ := List.pairwise_cons.mp sorted
    rw [weight, List.map_cons, List.sum_cons]
    by_cases same : k = key
    · subst same
      have later : (rest.map fun x => (if x.1 = k then (1 : ℚ) else 0) * x.2).sum = 0 := by
        apply List.sum_eq_zero
        intro term member
        obtain ⟨y, listed, rfl⟩ := List.mem_map.mp member
        have less := first y listed
        have different : y.1 ≠ k := by
          rintro rfl
          simp at less
        rw [if_neg different, zero_mul]
      rw [later]
      simp
    · have order : compare key k ≠ .eq := fun equal => same (Std.LawfulEqOrd.eq_of_compare equal).symm
      rw [if_neg same, zero_mul, zero_add, ← ih others]
      cases found : compare key k with
      | eq => exact absurd found order
      | lt => rfl
      | gt => rfl

end Weights

/-! ### Links -/

section

variable {s : Moving ℚ}

theorem linksOf_sorted (g : WeightedGraph ℚ) (s : Moving ℚ) (node : Nat) :
    Weights.Sorted (linksOf g s node) :=
  List.foldlRecOn (motive := Weights.Sorted) _ _ List.Pairwise.nil fun _ sorted _ _ => sorted.add

theorem sum_foldl_add (neighbours : List (Nat × ℚ)) (links : Weights Nat ℚ) (times : Nat → ℚ) :
    ((neighbours.foldl (fun links (neighbour, w) =>
        Weights.add (s.clusterOf neighbour) w links) links).map fun x => times x.1 * x.2).sum =
      (links.map fun x => times x.1 * x.2).sum +
        (neighbours.map fun x => times (s.clusterOf x.1) * x.2).sum := by
  induction neighbours generalizing links with
  | nil => simp
  | cons x rest ih =>
    rw [List.foldl_cons, ih, Weights.sum_add, List.map_cons, List.sum_cons]
    ring

namespace Network

variable {N : Network} {resolution : ℚ}

/-- The links of a node say what joins it to each cluster. -/
theorem Proper.weight_linksOf (proper : N.Proper) (s : Moving ℚ) (node c : Nat) :
    Weights.weight c (linksOf N.graph s node) = N.link s.clusterOf node c := by
  have summed : Weights.weight c (linksOf N.graph s node) =
      ((N.graph.neighbours.getD node []).map fun x =>
        (if s.clusterOf x.1 = c then 1 else 0) * x.2).sum := by
    rw [(linksOf_sorted N.graph s node).weight_eq_sum, linksOf, sum_foldl_add _ _ fun k =>
      if k = c then 1 else 0]
    simp
  have loops : ∀ i, (if i = node ∧ i ≠ node ∧ s.clusterOf i = c then (1 : ℚ) else 0) = 0 := by
    intro i
    exact if_neg fun both => both.2.1 both.1
  rw [summed, proper.sum_neighbours node fun x => (if s.clusterOf x.1 = c then 1 else 0) * x.2, link,
    weigh]
  simp only [loops, add_zero, zero_mul, sum_const_zero]
  refine congrArg List.sum (List.map_congr_left fun e member => ?_)
  have apart := proper.apart e member
  by_cases first : e.a = node
  · have second : e.b ≠ node := fun same => apart (first.trans same.symm)
    simp [first, second]
  · by_cases second : e.b = node
    · simp [first, second]
    · simp [first, second]

end Network

end

end CodeAtlas.Clustering
