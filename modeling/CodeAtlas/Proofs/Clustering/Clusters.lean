import CodeAtlas.Proofs.Clustering.Weights
import CodeAtlas.Proofs.Text.Order
import Mathlib.Data.List.Perm.Basic

/-!
# Clusters partition what is clustered

Collecting the members of each cluster neither loses nor repeats one, whatever the numbers of the
clusters are. The communities that are made of the clusters, the larger ones first and the single
members together at last, list every symbol once.
-/

namespace CodeAtlas.Communities

open Clustering

/-! ### Collecting members -/

theorem flatten_modify_cons {groups : List (List Nat)} {i x : Nat} (inside : i < groups.length) :
    (groups.modify i (x :: ·)).flatten.Perm (x :: groups.flatten) := by
  induction groups generalizing i with
  | nil => simp at inside
  | cons group rest ih =>
    cases i with
    | zero => simp
    | succ i =>
      have shorter : i < rest.length := by simpa using inside
      rw [List.modify_succ_cons, List.flatten_cons, List.flatten_cons]
      exact ((ih shorter).append_left group).trans List.perm_middle

/-- Puts a member into the group of its cluster. -/
def collect (x : Nat × Nat) (groups : Array (List Nat)) : Array (List Nat) :=
  groups.modify x.1 (x.2 :: ·)

theorem size_foldr_collect (xs : List (Nat × Nat)) (groups : Array (List Nat)) :
    (xs.foldr collect groups).size = groups.size := by
  induction xs with
  | nil => rfl
  | cons x rest ih => rw [List.foldr_cons, collect, Array.size_modify, ih]

theorem foldr_collect_perm {xs : List (Nat × Nat)} {groups : Array (List Nat)}
    (inside : ∀ x ∈ xs, x.1 < groups.size) :
    (xs.foldr collect groups).toList.flatten.Perm
      (xs.map Prod.snd ++ groups.toList.flatten) := by
  induction xs with
  | nil => exact List.Perm.refl _
  | cons x rest ih =>
    obtain ⟨here, others⟩ := List.forall_mem_cons.mp inside
    rw [List.foldr_cons, collect, Array.toList_modify]
    have bound : x.1 < (rest.foldr collect groups).toList.length := by
      rw [Array.length_toList, size_foldr_collect]
      exact here
    exact (flatten_modify_cons bound).trans ((ih others).cons x.2)

theorem le_foldl_max {xs : List Nat} {m x : Nat} (member : x ∈ xs ∨ x ≤ m) :
    x ≤ xs.foldl max m := by
  induction xs generalizing m with
  | nil => simpa using member
  | cons y rest ih =>
    apply ih
    rcases member with inList | small
    · rcases List.mem_cons.mp inList with rfl | later
      · exact .inr (le_max_right m x)
      · exact .inl later
    · exact .inr (small.trans (le_max_left m y))

theorem clusters_perm (assignment : Array Nat) :
    (clusters assignment).flatten.Perm (List.range assignment.size) := by
  have collected : clusters assignment = ((assignment.toList.zipIdx.foldr collect
      (Array.replicate (assignment.foldl max 0 + 1) [])).toList).filter (! ·.isEmpty) := rfl
  rw [collected, List.flatten_filter_not_isEmpty]
  have inside : ∀ x ∈ assignment.toList.zipIdx,
      x.1 < (Array.replicate (assignment.foldl max 0 + 1) ([] : List Nat)).size := by
    rintro ⟨cluster, member⟩ listed
    rw [Array.size_replicate, ← Array.foldl_toList]
    have found : cluster ∈ assignment.toList := List.fst_mem_of_mem_zipIdx listed
    exact Nat.lt_succ_of_le (le_foldl_max (.inl found))
  have positions : assignment.toList.zipIdx.map Prod.snd = List.range assignment.size := by
    rw [List.zipIdx_map_snd, Array.length_toList, List.range_eq_range']
  have perm := foldr_collect_perm inside
  rw [positions, Array.toList_replicate, List.flatten_replicate_nil, List.append_nil] at perm
  exact perm

theorem mem_foldr_collect {xs : List (Nat × Nat)} {groups : Array (List Nat)} {k i : Nat}
    (member : i ∈ ((xs.foldr collect groups)[k]?).getD []) :
    (k, i) ∈ xs ∨ i ∈ (groups[k]?).getD [] := by
  induction xs with
  | nil => exact .inr member
  | cons x rest ih =>
    rw [List.foldr_cons, collect, Array.getElem?_modify] at member
    split at member
    · next same =>
      cases found : (rest.foldr collect groups)[k]? with
      | none => simp [found] at member
      | some group =>
        rw [found] at ih member
        rcases List.mem_cons.mp member with here | before
        · have first : (k, i) = x := Prod.ext same.symm here
          exact .inl (first ▸ List.mem_cons_self)
        · exact (ih before).imp_left (List.mem_cons_of_mem x)
    · exact (ih member).imp_left (List.mem_cons_of_mem x)

/-- The members of a cluster are those that are assigned to it. -/
theorem exists_number {assignment : Array Nat} {group : List Nat}
    (member : group ∈ clusters assignment) : ∃ k, ∀ i ∈ group, assignment[i]? = some k := by
  obtain ⟨k, found⟩ := List.mem_iff_getElem?.mp (List.mem_filter.mp member).1
  refine ⟨k, fun i listed => ?_⟩
  have collected : i ∈ ((assignment.toList.zipIdx.foldr collect
      (Array.replicate (assignment.foldl max 0 + 1) []))[k]?).getD [] := by
    rw [← Array.getElem?_toList]
    exact found ▸ listed
  rcases mem_foldr_collect collected with assigned | none
  · have position := List.mem_zipIdx_iff_getElem?.mp assigned
    rwa [Array.getElem?_toList] at position
  · rw [Array.getElem?_replicate] at none
    split at none
    · cases none
    · cases none

theorem clusters_ne_nil {assignment : Array Nat} {group : List Nat}
    (member : group ∈ clusters assignment) : group ≠ [] := by
  have nonempty := (List.mem_filter.mp member).2
  rintro rfl
  simp at nonempty

/-! ### Communities of clusters -/

section

variable {symbols : Array Node} {assignment : Array Nat}

theorem members_append (symbols : Array Node) (g h : List Nat) :
    members symbols (g ++ h) = members symbols g ++ members symbols h :=
  List.filterMap_append

theorem members_flatten (symbols : Array Node) (groups : List (List Nat)) :
    members symbols groups.flatten = groups.flatMap (members symbols) := by
  induction groups with
  | nil => rfl
  | cons group rest ih => rw [List.flatten_cons, members_append, List.flatMap_cons, ih]

theorem filterMap_range (nodes : List Node) :
    (List.range nodes.length).filterMap (nodes[·]?) = nodes := by
  induction nodes using List.reverseRecOn with
  | nil => rfl
  | append_singleton rest last ih =>
    have before : (List.range rest.length).filterMap ((rest ++ [last])[·]?) =
        (List.range rest.length).filterMap (rest[·]?) := by
      apply List.filterMap_congr
      intro i member
      exact List.getElem?_append_left (List.mem_range.mp member)
    rw [List.length_append, List.length_singleton, List.range_succ, List.filterMap_append, before,
      ih]
    simp

theorem members_range (symbols : Array Node) :
    members symbols (List.range symbols.size) = symbols.toList := by
  have same := filterMap_range symbols.toList
  rw [Array.length_toList] at same
  simpa only [members, Array.getElem?_toList] using same

/-- The clusters of two or more members, in order. -/
def keptGroups (symbols : Array Node) (assignment : Array Nat) : List (List Nat) :=
  ((clusters assignment).filter (2 ≤ ·.length)).mergeSort (groupBefore symbols)

/-- The members of all other clusters. -/
def otherGroup (assignment : Array Nat) : List Nat :=
  ((clusters assignment).filter (·.length < 2)).flatten.mergeSort (· ≤ ·)

/-- Every position is in a large cluster or in none. -/
theorem groups_perm (symbols : Array Node) (assignment : Array Nat) :
    ((keptGroups symbols assignment).flatten ++ otherGroup assignment).Perm
      (List.range assignment.size) := by
  have large : (keptGroups symbols assignment).flatten.Perm
      ((clusters assignment).filter (2 ≤ ·.length)).flatten :=
    (List.mergeSort_perm _ _).flatten
  have small : (otherGroup assignment).Perm
      ((clusters assignment).filter (·.length < 2)).flatten := List.mergeSort_perm _ _
  have complement : (clusters assignment).filter (·.length < 2) =
      (clusters assignment).filter fun g => ! decide (2 ≤ g.length) := by
    congr 1
    funext g
    rw [Bool.eq_iff_iff]
    simp
  have both := (List.filter_append_perm (fun g : List Nat => decide (2 ≤ g.length))
    (clusters assignment)).flatten
  rw [complement] at small
  rw [List.flatten_append] at both
  exact ((large.append small).trans both).trans (clusters_perm assignment)

theorem ofAssignment_eq (symbols : Array Node) (pairs : List Pair) (assignment : Array Nat) :
    ofAssignment symbols pairs assignment =
      ((keptGroups symbols assignment).zipIdx.map fun x =>
        ofGroup symbols pairs ("community:" ++ toString x.2) none x.1) ++
      if (otherGroup assignment).isEmpty then []
      else [ofGroup symbols pairs otherId (some "Other") (otherGroup assignment)] := rfl

theorem memberIds_kept (symbols : Array Node) (pairs : List Pair) (groups : List (List Nat)) :
    (groups.zipIdx.map fun x =>
        ofGroup symbols pairs ("community:" ++ toString x.2) none x.1).flatMap
          Community.memberIds = (members symbols groups.flatten).map Node.id := by
  rw [members_flatten, List.map_flatMap, List.flatMap_map]
  conv => rhs; rw [← List.zipIdx_map_fst 0 groups, List.flatMap_map]
  rfl

theorem memberIds_other (symbols : Array Node) (pairs : List Pair) (group : List Nat) :
    (if group.isEmpty then [] else [ofGroup symbols pairs otherId (some "Other") group]).flatMap
      Community.memberIds = (members symbols group).map Node.id := by
  cases group with
  | nil => rfl
  | cons i rest => exact List.flatMap_singleton _ _

theorem ofAssignment_perm (pairs : List Pair) (size : assignment.size = symbols.size) :
    ((ofAssignment symbols pairs assignment).flatMap Community.memberIds).Perm
      (symbols.toList.map Node.id) := by
  have perm := groups_perm symbols assignment
  rw [size] at perm
  rw [ofAssignment_eq, List.flatMap_append, memberIds_kept, memberIds_other, ← List.map_append,
    ← members_append, ← members_range]
  exact (perm.filterMap _).map _

/-- The larger groups come first. -/
theorem keptGroups_ordered (symbols : Array Node) (assignment : Array Nat) :
    (keptGroups symbols assignment).Pairwise fun g h => h.length ≤ g.length := by
  have goes : Text.GoesBy (fun group : List Nat => OrderDual.toDual group.length)
      (Text.textBefore (firstId symbols)) (groupBefore symbols) := fun _ _ => rfl
  exact goes.sorted_keys (Text.textBefore_trans _) (Text.textBefore_total _) _

end

end CodeAtlas.Communities
