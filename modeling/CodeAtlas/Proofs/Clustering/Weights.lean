import CodeAtlas.Clustering.Communities
import CodeAtlas.Proofs.Double.Sums

/-!
# Weights of joined pairs

Weights are kept in order of their keys, so that each key occurs once. The pairs that have a weight
are those that an edge joins, and their weights are finite, however many edges there are.
-/

namespace CodeAtlas.Clustering

instance : Std.TransOrd Pair :=
  inferInstanceAs (Std.TransCmp (compareLex (compareOn Pair.first) (compareOn Pair.second)))

instance : Std.LawfulEqOrd Pair where
  eq_of_compare {a b} h := by
    obtain ⟨first, second⟩ : compare a.first b.first = .eq ∧ compare a.second b.second = .eq :=
      Ordering.then_eq_eq.mp h
    cases a
    cases b
    simp_all

namespace Weights

section

variable {κ α : Type} [Ord κ] [Std.TransOrd κ] [Std.LawfulEqOrd κ] [Scalar α]
  {key k : κ} {w : α} {weights : Weights κ α}

/-- The keys are in strict order. -/
def Sorted (weights : Weights κ α) : Prop :=
  weights.Pairwise fun x y => compare x.1 y.1 = .lt

omit [Std.TransOrd κ] in
theorem mem_keys_add :
    k ∈ (add key w weights).map Prod.fst ↔ k = key ∨ k ∈ weights.map Prod.fst := by
  induction weights with
  | nil => simp [add]
  | cons x rest ih =>
    obtain ⟨k', v⟩ := x
    unfold add
    cases order : compare key k' with
    | lt => simp
    | eq =>
      obtain rfl := Std.LawfulEqOrd.eq_of_compare order
      simp
    | gt =>
      simp only [List.map_cons, List.mem_cons, ih]
      grind

theorem Sorted.add (sorted : Sorted weights) : Sorted (add key w weights) := by
  induction weights with
  | nil => simp [Weights.add, Sorted]
  | cons x rest ih =>
    obtain ⟨k', v⟩ := x
    obtain ⟨first, others⟩ := List.pairwise_cons.mp sorted
    unfold Weights.add
    cases order : compare key k' with
    | lt =>
      refine List.pairwise_cons.mpr ⟨?_, sorted⟩
      intro y member
      rcases List.mem_cons.mp member with rfl | later
      · exact order
      · exact Std.TransCmp.lt_trans order (first y later)
    | eq => exact List.pairwise_cons.mpr ⟨first, others⟩
    | gt =>
      refine List.pairwise_cons.mpr ⟨?_, ih others⟩
      intro y member
      rcases mem_keys_add.mp (List.mem_map_of_mem member) with rfl | later
      · exact Std.OrientedCmp.gt_iff_lt.mp order
      · obtain ⟨z, inRest, same⟩ := List.mem_map.mp later
        rw [← same]
        exact first z inRest

omit [Std.TransOrd κ] [Scalar α] in
theorem Sorted.nodup (sorted : Sorted weights) : (weights.map Prod.fst).Nodup := by
  rw [List.Nodup, List.pairwise_map]
  refine sorted.imp ?_
  intro x y less same
  rw [same] at less
  simp at less

omit [Std.TransOrd κ] [Std.LawfulEqOrd κ] in
/-- What holds of a first weight and is kept by additions holds of every weight. -/
theorem forall_add {P : α → Prop} (all : ∀ x ∈ weights, P x.2) (first : P (Scalar.zero + w))
    (further : ∀ v, P v → P (v + w)) : ∀ x ∈ add key w weights, P x.2 := by
  induction weights with
  | nil =>
    intro x member
    rw [List.mem_singleton.mp member]
    exact first
  | cons y rest ih =>
    obtain ⟨k', v⟩ := y
    obtain ⟨here, others⟩ := List.forall_mem_cons.mp all
    unfold add
    cases compare key k' with
    | lt => exact List.forall_mem_cons.mpr ⟨first, all⟩
    | eq => exact List.forall_mem_cons.mpr ⟨further v here, others⟩
    | gt => exact List.forall_mem_cons.mpr ⟨here, ih others⟩

end

end Weights

/-- A weight is at least one half and not too large. -/
def Weighty (w : Float) : Prop :=
  ∃ q, Double.Denotes w q ∧ 1 / 2 ≤ q ∧ q ≤ 2 ^ (53 : ℤ)

end CodeAtlas.Clustering

namespace CodeAtlas.Communities

open Clustering

section

variable {position? : String → Option Nat} {edges : List Edge} {p : Pair}

/-- Adds the weight of an edge to that of the pair it joins. -/
def addPair (position? : String → Option Nat) (weights : Weights Pair Float) (e : Edge) :
    Weights Pair Float :=
  match pair? position? e with
  | some p => Weights.add p e.confidence weights
  | none => weights

theorem pairWeights_eq (position? : String → Option Nat) (edges : List Edge) :
    pairWeights position? edges = edges.foldl (addPair position?) [] := rfl

/-- What holds of no weights and is kept when an edge adds one holds of the weights of all edges. -/
theorem pairWeights_induction {P : Weights Pair Float → Prop} (start : P [])
    (step : ∀ e ∈ edges, ∀ q weights, pair? position? e = some q → P weights →
      P (Weights.add q e.confidence weights)) : P (pairWeights position? edges) := by
  rw [pairWeights_eq]
  refine List.foldlRecOn edges _ start ?_
  intro weights holds e member
  unfold addPair
  split
  · next q found => exact step e member q weights found holds
  · exact holds

theorem pairWeights_sorted (position? : String → Option Nat) (edges : List Edge) :
    Weights.Sorted (pairWeights position? edges) := by
  apply pairWeights_induction
  · exact List.Pairwise.nil
  · intro e _ q weights _ sorted
    exact sorted.add

theorem mem_addPair {weights : Weights Pair Float} {e : Edge} :
    p ∈ (addPair position? weights e).map Prod.fst ↔
      p ∈ weights.map Prod.fst ∨ pair? position? e = some p := by
  unfold addPair
  cases found : pair? position? e with
  | none => simp
  | some q =>
    rw [Weights.mem_keys_add, Option.some.injEq, or_comm, eq_comm]

/-- The pairs that have a weight are those that an edge joins. -/
theorem mem_pairWeights :
    p ∈ (pairWeights position? edges).map Prod.fst ↔ ∃ e ∈ edges, pair? position? e = some p := by
  rw [pairWeights_eq]
  induction edges using List.reverseRecOn with
  | nil => simp
  | append_singleton rest e ih =>
    rw [List.foldl_append, List.foldl_cons, List.foldl_nil, mem_addPair, ih]
    constructor
    · rintro (⟨e', member, joins⟩ | joins)
      · exact ⟨e', List.mem_append_left _ member, joins⟩
      · exact ⟨e, List.mem_append_right _ (List.mem_singleton_self e), joins⟩
    · rintro ⟨e', member, joins⟩
      rcases List.mem_append.mp member with earlier | last
      · exact .inl ⟨e', earlier, joins⟩
      · rw [List.mem_singleton.mp last] at joins
        exact .inr joins

theorem half_denotes : Double.Denotes leastCertainty (1 / 2) :=
  Double.half_denotes

theorem joins_of_pair {e : Edge} (found : pair? position? e = some p) : joins e = true := by
  unfold pair? at found
  split at found
  · next joined => exact joined
  · cases found

/-- An edge that joins no pair adds no weight. -/
theorem pairWeights_filter (position? : String → Option Nat) (edges : List Edge) :
    pairWeights position? (edges.filter joins) = pairWeights position? edges := by
  have step : ∀ weights e, (if joins e then addPair position? weights e else weights) =
      addPair position? weights e := by
    intro weights e
    by_cases joined : joins e = true
    · rw [if_pos joined]
    · simp [joined, addPair, pair?]
  rw [pairWeights_eq, pairWeights_eq, List.foldl_filter]
  congr 1
  funext weights e
  exact step weights e

/-- The communities are found by the edges that join symbols, whatever others there are. -/
theorem ofParts_congr {edges' : List Edge} (nodes : List Node)
    (same : edges.filter joins = edges'.filter joins) :
    ofParts nodes edges = ofParts nodes edges' := by
  have weights : ∀ position?, pairWeights position? edges = pairWeights position? edges' := by
    intro position?
    rw [← pairWeights_filter, same, pairWeights_filter]
  unfold ofParts
  simp only [weights]

theorem joins_denotes {e : Edge} (joined : joins e = true) (inside : Double.InUnit e.confidence) :
    ∃ q, Double.Denotes e.confidence q ∧ 1 / 2 ≤ q ∧ q ≤ 1 := by
  obtain ⟨q, found, most⟩ := inside.denotes
  refine ⟨q, found, ?_, most⟩
  simp only [joins, Bool.and_eq_true, Bool.not_eq_true', decide_eq_false_iff_not] at joined
  obtain ⟨-, notLess⟩ := joined
  rwa [found.lt_iff half_denotes, not_lt] at notLess

/-- However many edges join a pair, its weight is finite. -/
theorem pairWeights_weighty (inside : ∀ e ∈ edges, Double.InUnit e.confidence) :
    ∀ x ∈ pairWeights position? edges, Weighty x.2 := by
  apply pairWeights_induction (P := fun weights => ∀ x ∈ weights, Weighty x.2)
  · simp
  · intro e member p weights found all
    obtain ⟨q, known, least, most⟩ := joins_denotes (joins_of_pair found) (inside e member)
    have small : q ≤ 2 ^ ((53 : ℤ) - 53) := by simpa using most
    -- Beyond `2 ^ 53` a double swallows what is no more than one, so no sum gets past that.
    apply Weights.forall_add all
    · have zero : (0 : ℚ) ≤ 2 ^ (53 : ℤ) := (Double.two_zpow_pos _).le
      obtain ⟨r, sum, bound, -, qLe⟩ := Double.scalar_zero_denotes.add_small (e := 53)
        (by norm_num) (by norm_num) zero known small
      exact ⟨r, sum, least.trans qLe, bound⟩
    · rintro v ⟨p', hv, least', most'⟩
      obtain ⟨r, sum, bound, pLe, -⟩ := hv.add_small (e := 53) (by norm_num) (by norm_num)
        most' known small
      exact ⟨r, sum, least'.trans pLe, bound⟩

end

end CodeAtlas.Communities
