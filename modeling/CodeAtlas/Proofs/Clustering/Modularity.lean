import CodeAtlas.Clustering.Louvain
import Mathlib.Algebra.BigOperators.Field
import Mathlib.Algebra.BigOperators.Ring.Finset
import Mathlib.Algebra.Order.Ring.Rat
import Mathlib.Tactic.FieldSimp
import Mathlib.Tactic.Linarith
import Mathlib.Tactic.Ring

/-!
# Modularity

The modularity of a clustering adds up, over the clusters, the share of the weight within the cluster
less what it would be if the same degrees were joined at random. It is a sum over pairs of nodes in one
cluster, so it does not depend on the names of the clusters, and what it gains when a node moves is
told by the links of the node and the degrees in the two clusters.
-/

namespace CodeAtlas.Clustering

open Finset

/-- Edges with exact weights between numbered nodes, and the weights of the loops at the nodes. -/
structure Network where
  edges : List (WeightedEdge ℚ)
  loops : Array ℚ

namespace Network

/-- The number of nodes. -/
def size (N : Network) : Nat :=
  N.loops.size

/-- The weights of the edges and of the loops, each counted as often as its ends say. -/
def weigh (N : Network) (times : Nat → Nat → ℚ) : ℚ :=
  (N.edges.map fun e => times e.a e.b * e.weight).sum +
    ∑ i ∈ range N.size, times i i * N.loops.getD i 0

/-- The whole weight. -/
def mass (N : Network) : ℚ :=
  N.weigh fun _ _ => 1

/-- The weight at a node; that of a loop counts at both its ends. -/
def degree (N : Network) (i : Nat) : ℚ :=
  N.weigh fun a b => (if a = i then 1 else 0) + if b = i then 1 else 0

/-- The weight that has both its ends in a cluster. -/
def inside (N : Network) (label : Nat → Nat) (c : Nat) : ℚ :=
  N.weigh fun a b => if label a = c ∧ label b = c then 1 else 0

/-- The degrees of the nodes of a cluster. -/
def degreeIn (N : Network) (label : Nat → Nat) (c : Nat) : ℚ :=
  ∑ i ∈ range N.size with label i = c, N.degree i

/-- How much more of the weight is within the clusters than at random. -/
def modularity (N : Network) (resolution : ℚ) (label : Nat → Nat) : ℚ :=
  ∑ c ∈ (range N.size).image label,
    (N.inside label c / N.mass - resolution * (N.degreeIn label c / (2 * N.mass)) ^ 2)

/-- Edges join different nodes. -/
structure Proper (N : Network) : Prop where
  ends : ∀ e ∈ N.edges, e.a < N.size ∧ e.b < N.size
  apart : ∀ e ∈ N.edges, e.a ≠ e.b

section

variable {N : Network} {resolution : ℚ} {label label' : Nat → Nat} {times times' : Nat → Nat → ℚ}
  {i c d node : Nat}

/-! ### Weighing -/

theorem weigh_add (N : Network) (times times' : Nat → Nat → ℚ) :
    N.weigh (fun a b => times a b + times' a b) = N.weigh times + N.weigh times' := by
  simp only [weigh, add_mul, List.sum_map_add, sum_add_distrib]
  ring

theorem weigh_zero (N : Network) : N.weigh (fun _ _ => 0) = 0 := by
  simp [weigh]

theorem weigh_sum (N : Network) (s : Finset Nat) (times : Nat → Nat → Nat → ℚ) :
    N.weigh (fun a b => ∑ c ∈ s, times c a b) = ∑ c ∈ s, N.weigh (times c) := by
  induction s using Finset.induction_on with
  | empty => simp only [sum_empty, weigh_zero]
  | insert c s new ih => simp only [sum_insert new, weigh_add, ih]

/-- Only what is counted for edges between the nodes and for loops at them matters. -/
theorem Proper.weigh_congr (proper : N.Proper)
    (edges : ∀ a < N.size, ∀ b < N.size, a ≠ b → times a b = times' a b)
    (loops : ∀ a < N.size, times a a = times' a a) : N.weigh times = N.weigh times' := by
  have joined : N.edges.map (fun e => times e.a e.b * e.weight) =
      N.edges.map fun e => times' e.a e.b * e.weight := by
    apply List.map_congr_left
    intro e member
    obtain ⟨first, second⟩ := proper.ends e member
    rw [edges e.a first e.b second (proper.apart e member)]
  rw [weigh, weigh, joined]
  refine congrArg _ (sum_congr rfl fun i inside => ?_)
  rw [loops i (mem_range.mp inside)]

theorem Proper.weigh_congr' (proper : N.Proper)
    (same : ∀ a < N.size, ∀ b < N.size, times a b = times' a b) : N.weigh times = N.weigh times' :=
  proper.weigh_congr (fun a first b second _ => same a first b second) fun a inside =>
    same a inside a inside

/-! ### Degrees -/

/-- The degrees of a cluster count each weight for each of its ends there. -/
theorem Proper.degreeIn_eq (proper : N.Proper) (label : Nat → Nat) (c : Nat) : N.degreeIn label c =
    N.weigh fun a b => (if label a = c then 1 else 0) + if label b = c then 1 else 0 := by
  unfold degreeIn degree
  rw [← weigh_sum]
  apply proper.weigh_congr'
  intro a first b second
  have counted : ∀ j < N.size, (∑ i ∈ range N.size with label i = c, if j = i then (1 : ℚ) else 0) =
      if label j = c then 1 else 0 := by
    intro j known
    simp [sum_ite_eq, known]
  rw [sum_add_distrib, counted a first, counted b second]

/-- All degrees together are twice the weight. -/
theorem Proper.sum_degree (proper : N.Proper) : ∑ i ∈ range N.size, N.degree i = 2 * N.mass := by
  have all := proper.degreeIn_eq (fun _ => 0) 0
  simp only [degreeIn, filter_true, if_true] at all
  rw [all, weigh_add, mass]
  ring

theorem sum_degreeIn (N : Network) (label : Nat → Nat) {T : Finset Nat}
    (labels : ∀ i < N.size, label i ∈ T) (f : Nat → ℚ) :
    ∑ c ∈ T, f c * N.degreeIn label c = ∑ i ∈ range N.size, f (label i) * N.degree i := by
  have maps : ∀ i ∈ range N.size, label i ∈ T := fun i inside => labels i (mem_range.mp inside)
  rw [← sum_fiberwise_of_maps_to maps]
  refine sum_congr rfl fun c _ => ?_
  rw [degreeIn, mul_sum]
  refine sum_congr rfl fun i here => ?_
  rw [(mem_filter.mp here).2]

/-! ### Modularity by pairs -/

/-- The weight within all clusters. -/
theorem Proper.sum_inside (proper : N.Proper) {T : Finset Nat}
    (labels : ∀ i < N.size, label i ∈ T) : ∑ c ∈ T, N.inside label c =
      N.weigh fun a b => if label a = label b then 1 else 0 := by
  unfold inside
  rw [← weigh_sum]
  apply proper.weigh_congr'
  intro a first b _
  have known := labels a first
  by_cases same : label a = label b
  · simp [← same, known]
  · have never : ∀ c, ¬ (label a = c ∧ label b = c) := fun c both => same (both.1.trans both.2.symm)
    simp [same, never]

/-- A cluster without nodes adds nothing. -/
theorem Proper.empty_cluster (proper : N.Proper) (none : ∀ i < N.size, label i ≠ c) :
    N.inside label c = 0 ∧ N.degreeIn label c = 0 := by
  constructor
  · rw [← weigh_zero N, inside]
    apply proper.weigh_congr'
    intro a first b _
    rw [if_neg fun both => none a first both.1]
  · apply sum_eq_zero
    intro i here
    obtain ⟨known, same⟩ := mem_filter.mp here
    exact absurd same (none i (mem_range.mp known))

/-- The modularity may be summed over any names that include those of the clusters. -/
theorem Proper.modularity_eq (proper : N.Proper) (resolution : ℚ) {T : Finset Nat}
    (labels : ∀ i < N.size, label i ∈ T) : N.modularity resolution label =
      ∑ c ∈ T, (N.inside label c / N.mass -
        resolution * (N.degreeIn label c / (2 * N.mass)) ^ 2) := by
  apply sum_subset
  · intro c member
    obtain ⟨i, known, rfl⟩ := mem_image.mp member
    exact labels i (mem_range.mp known)
  · intro c _ unused
    have none : ∀ i < N.size, label i ≠ c := by
      rintro i known rfl
      exact unused (mem_image_of_mem label (mem_range.mpr known))
    obtain ⟨within, degrees⟩ := proper.empty_cluster none
    rw [within, degrees]
    ring

theorem Proper.modularity_eq_sub (proper : N.Proper) (resolution : ℚ) {T : Finset Nat}
    (labels : ∀ i < N.size, label i ∈ T) : N.modularity resolution label =
      (N.weigh fun a b => if label a = label b then 1 else 0) / N.mass -
        resolution / (2 * N.mass) ^ 2 * ∑ c ∈ T, N.degreeIn label c ^ 2 := by
  rw [proper.modularity_eq resolution labels, sum_sub_distrib, ← sum_div, proper.sum_inside labels,
    mul_sum]
  congr 1
  refine sum_congr rfl fun c _ => ?_
  rw [div_pow]
  ring

/-- The modularity is told by which nodes are in one cluster. -/
theorem Proper.modularity_congr (proper : N.Proper) (resolution : ℚ)
    (same : ∀ i < N.size, ∀ j < N.size, label i = label j ↔ label' i = label' j) :
    N.modularity resolution label = N.modularity resolution label' := by
  have pairs : ∀ label : Nat → Nat, N.modularity resolution label =
      (N.weigh fun a b => if label a = label b then 1 else 0) / N.mass -
        resolution / (2 * N.mass) ^ 2 *
          ∑ i ∈ range N.size, N.degreeIn label (label i) * N.degree i := by
    intro label
    have labels : ∀ i < N.size, label i ∈ (range N.size).image label :=
      fun i known => mem_image_of_mem label (mem_range.mpr known)
    rw [proper.modularity_eq_sub resolution labels, ← N.sum_degreeIn label labels]
    simp only [pow_two]
  have joined : N.weigh (fun a b => if label a = label b then 1 else 0) =
      N.weigh fun a b => if label' a = label' b then 1 else 0 := by
    apply proper.weigh_congr'
    intro a first b second
    simp only [same a first b second]
  have degrees : ∑ i ∈ range N.size, N.degreeIn label (label i) * N.degree i =
      ∑ i ∈ range N.size, N.degreeIn label' (label' i) * N.degree i := by
    refine sum_congr rfl fun i known => ?_
    rw [degreeIn, degreeIn, filter_congr fun j known' =>
      same j (mem_range.mp known') i (mem_range.mp known)]
  rw [pairs, pairs, joined, degrees]

/-! ### Moving a node -/

/-- The weight between a node and the other nodes of a cluster. -/
def link (N : Network) (label : Nat → Nat) (node c : Nat) : ℚ :=
  N.weigh fun a b => (if a = node ∧ b ≠ node ∧ label b = c then 1 else 0) +
    if b = node ∧ a ≠ node ∧ label a = c then 1 else 0

/-- The degrees of the nodes of a cluster besides a node. -/
def degreeBeside (N : Network) (label : Nat → Nat) (node c : Nat) : ℚ :=
  N.degreeIn label c - if label node = c then N.degree node else 0

/-- What a node gains in a cluster. -/
def gainOf (N : Network) (resolution : ℚ) (label : Nat → Nat) (node c : Nat) : ℚ :=
  gain resolution (2 * N.mass) (N.degree node) (N.degreeBeside label node c) (N.link label node c)

theorem degreeIn_update (known : node < N.size) : N.degreeIn (Function.update label node d) c =
    N.degreeBeside label node c + if d = c then N.degree node else 0 := by
  have split : ∀ label : Nat → Nat, N.degreeIn label c =
      (if label node = c then N.degree node else 0) +
        ∑ i ∈ (range N.size).erase node, if label i = c then N.degree i else 0 := by
    intro label
    rw [degreeIn, sum_filter, ← add_sum_erase _ _ (mem_range.mpr known)]
  have others : ∑ i ∈ (range N.size).erase node,
      (if Function.update label node d i = c then N.degree i else 0) =
        ∑ i ∈ (range N.size).erase node, if label i = c then N.degree i else 0 := by
    refine sum_congr rfl fun i other => ?_
    rw [Function.update_of_ne (ne_of_mem_erase other)]
  rw [split, others, degreeBeside, split label, Function.update_self]
  ring

/-- Within the clusters there is what joins the other nodes and what links the node to its cluster. -/
theorem Proper.weigh_update (proper : N.Proper) (label : Nat → Nat) (node d : Nat) :
    N.weigh (fun a b => if Function.update label node d a = Function.update label node d b then 1
        else 0) =
      N.weigh (fun a b => if a = b ∨ a ≠ node ∧ b ≠ node ∧ label a = label b then 1 else 0) +
        N.link label node d := by
  rw [link, ← weigh_add]
  apply proper.weigh_congr
  · intro a _ b _ apart
    by_cases first : a = node
    · have second : b ≠ node := fun same => apart (first.trans same.symm)
      simp [first, second, Ne.symm second, eq_comm (a := d)]
    · by_cases second : b = node
      · simp [first, second]
      · simp [first, second, apart]
  · intro a _
    have once : ¬ (a = node ∧ a ≠ node ∧ label a = d) := fun both => both.2.1 both.1
    simp [once]

/-- What the modularity gains when a node goes from one cluster to another one. -/
theorem Proper.modularity_update_sub (proper : N.Proper) (positive : 0 < N.mass) (resolution : ℚ)
    (label : Nat → Nat) (known : node < N.size) (c d : Nat) :
    N.modularity resolution (Function.update label node d) -
        N.modularity resolution (Function.update label node c) =
      (N.gainOf resolution label node d - N.gainOf resolution label node c) / N.mass := by
  set T := insert c (insert d ((range N.size).image label)) with names
  have labels : ∀ e ∈ T, ∀ i < N.size, Function.update label node e i ∈ T := by
    intro e inT i inside
    by_cases same : i = node
    · rwa [same, Function.update_self]
    · rw [Function.update_of_ne same, names]
      exact mem_insert_of_mem (mem_insert_of_mem (mem_image_of_mem label (mem_range.mpr inside)))
  have squares : ∀ e ∈ T, ∑ x ∈ T, N.degreeIn (Function.update label node e) x ^ 2 =
      ∑ x ∈ T, N.degreeBeside label node x ^ 2 +
        (2 * N.degreeBeside label node e * N.degree node + N.degree node ^ 2) := by
    intro e inT
    have expand : ∀ x, N.degreeIn (Function.update label node e) x ^ 2 =
        N.degreeBeside label node x ^ 2 + if e = x then
          2 * N.degreeBeside label node x * N.degree node + N.degree node ^ 2 else 0 := by
      intro x
      rw [degreeIn_update known]
      split_ifs <;> ring
    simp only [expand, sum_add_distrib, sum_ite_eq, inT, if_true]
  have value : ∀ e ∈ T, N.modularity resolution (Function.update label node e) =
      (N.weigh (fun a b => if a = b ∨ a ≠ node ∧ b ≠ node ∧ label a = label b then 1 else 0) +
        N.link label node e) / N.mass - resolution / (2 * N.mass) ^ 2 *
          (∑ x ∈ T, N.degreeBeside label node x ^ 2 +
            (2 * N.degreeBeside label node e * N.degree node + N.degree node ^ 2)) := by
    intro e inT
    rw [proper.modularity_eq_sub resolution (labels e inT), squares e inT,
      proper.weigh_update label node e]
  rw [value d (by simp [names]), value c (by simp [names]), gainOf, gainOf, gain, gain]
  have nonzero : N.mass ≠ 0 := positive.ne'
  field_simp
  ring

end

end Network

end CodeAtlas.Clustering
