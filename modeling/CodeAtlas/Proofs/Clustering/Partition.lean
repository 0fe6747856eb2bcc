import CodeAtlas.Proofs.Clustering.Degrees
import CodeAtlas.Proofs.Clustering.Cohesion
import Std.Data.String.ToNat

/-!
# Communities partition the symbols

Every symbol is listed by one community, once, and carries that community's id. The sizes, ids and
cohesions of the communities are those that the joined pairs of symbols call for.
-/

namespace CodeAtlas.Communities

open Clustering

/-! ### Communities of groups -/

section

variable {symbols : List Node} {edges : List Edge} {group : List Nat} {assignment : Array Nat}
  {c : Community}

theorem memberIds_ofGroup (pairs : List Pair) (id : String) (name? : Option String)
    (inside : ∀ i ∈ group, i < symbols.length) :
    (ofGroup symbols.toArray pairs id name? group).memberIds = group.map (idAt symbols) := by
  show (members symbols.toArray group).map Node.id = group.map (idAt symbols)
  induction group with
  | nil => rfl
  | cons i rest ih =>
    obtain ⟨here, others⟩ := List.forall_mem_cons.mp inside
    have found : symbols.toArray[i]? = some symbols[i] := by
      rw [List.getElem?_toArray, List.getElem?_eq_getElem here]
    rw [members, List.filterMap_cons_some found, List.map_cons, List.map_cons, idAt_eq here]
    exact congrArg (symbols[i].id :: ·) (ih others)

/-- The groups of an assignment are made of positions, and no position is in one twice. -/
theorem group_positions (symbols : Array Node)
    (member : group ∈ keptGroups symbols assignment ∨ group = otherGroup assignment) :
    group.Nodup ∧ ∀ i ∈ group, i < assignment.size := by
  have perm := groups_perm symbols assignment
  have once := perm.nodup_iff.mpr List.nodup_range
  have sub : group.Sublist ((keptGroups symbols assignment).flatten ++ otherGroup assignment) := by
    rcases member with kept | rfl
    · exact (List.sublist_flatten_of_mem kept).trans (List.sublist_append_left _ _)
    · exact List.sublist_append_right _ _
  refine ⟨once.sublist sub, ?_⟩
  intro i listed
  exact List.mem_range.mp (perm.subset (sub.subset listed))

/-- Every community that is detected is that of a group. -/
theorem mem_ofAssignment {symbols : Array Node} {pairs : List Pair}
    (member : c ∈ ofAssignment symbols pairs assignment) :
    ∃ id name? group, c = ofGroup symbols pairs id name? group ∧ group ≠ [] ∧ group.Nodup ∧
      ∀ i ∈ group, i < assignment.size := by
  rw [ofAssignment_eq] at member
  rcases List.mem_append.mp member with kept | other
  · obtain ⟨⟨group, n⟩, listed, rfl⟩ := List.mem_map.mp kept
    have inKept : group ∈ keptGroups symbols assignment := List.fst_mem_of_mem_zipIdx listed
    have inClusters : group ∈ clusters assignment :=
      List.mem_of_mem_filter (List.mem_mergeSort.mp inKept)
    exact ⟨_, _, group, rfl, clusters_ne_nil inClusters, group_positions symbols (.inl inKept)⟩
  · split_ifs at other with none
    · cases other
    · refine ⟨_, _, _, List.mem_singleton.mp other, ?_, group_positions symbols (.inr rfl)⟩
      rwa [List.isEmpty_iff] at none

/-! ### Ranking -/

/-- Communities of two symbols or more, the larger first and numbered, are followed by at most one
community of the other symbols. -/
def Ranked (communities : List Community) : Prop :=
  ∃ kept other : List Community, communities = kept ++ other ∧
    (∀ (i : Nat) c, kept[i]? = some c → c.id = "community:" ++ toString i ∧ 2 ≤ c.symbolCount) ∧
    (kept.Pairwise fun c d => d.symbolCount ≤ c.symbolCount) ∧
    (other = [] ∨ ∃ c, other = [c] ∧ c.id = otherId)

theorem ofAssignment_ranked (symbols : Array Node) (pairs : List Pair) (assignment : Array Nat) :
    Ranked (ofAssignment symbols pairs assignment) := by
  refine ⟨_, _, ofAssignment_eq symbols pairs assignment, ?_, ?_, ?_⟩
  · intro i c found
    rw [List.getElem?_map, List.getElem?_zipIdx, Option.map_map] at found
    obtain ⟨group, listed, rfl⟩ := Option.map_eq_some_iff.mp found
    have inKept : group ∈ keptGroups symbols assignment := List.mem_of_getElem? listed
    have large := (List.mem_filter.mp (List.mem_mergeSort.mp inKept)).2
    refine ⟨?_, of_decide_eq_true large⟩
    show "community:" ++ toString (0 + i) = "community:" ++ toString i
    rw [Nat.zero_add]
  · rw [List.pairwise_map]
    have ordered := keptGroups_ordered symbols assignment
    rw [← List.zipIdx_map_fst 0 (keptGroups symbols assignment), List.pairwise_map] at ordered
    exact ordered
  · split_ifs with none
    · exact .inl rfl
    · exact .inr ⟨_, rfl, rfl⟩

theorem otherId_ne (i : Nat) : "community:" ++ toString i ≠ otherId := by
  intro same
  have digits : "community:" ++ toString i = "community:" ++ "other" := same
  have text : toString i = "other" := String.append_right_inj _ |>.mp digits
  -- A number is written in digits, none of which is a letter.
  have listed : 'o' ∈ Nat.toDigits 10 i := by
    rw [← Nat.toList_repr, show Nat.repr i = "other" from text]
    decide
  have digit := Nat.isDigit_of_mem_toDigits (by norm_num) le_rfl listed
  exact absurd digit (by decide)

theorem Ranked.ids_nodup {communities : List Community} (ranked : Ranked communities) :
    (communities.map Community.id).Nodup := by
  obtain ⟨kept, other, rfl, numbered, -, last⟩ := ranked
  have ids : kept.map Community.id =
      (List.range kept.length).map fun i => "community:" ++ toString i := by
    apply List.ext_getElem
    · simp
    · intro i inside _
      have bound : i < kept.length := by simpa using inside
      rw [List.getElem_map, List.getElem_map, List.getElem_range]
      exact (numbered i _ (List.getElem?_eq_getElem bound)).1
  have keptNodup : (kept.map Community.id).Nodup := by
    rw [ids]
    refine List.nodup_range.map_on ?_
    intro i _ j _ same
    exact Nat.repr_injective (String.append_right_inj _ |>.mp same)
  rw [List.map_append, List.nodup_append]
  rcases last with rfl | ⟨c, rfl, id⟩
  · exact ⟨keptNodup, List.nodup_nil, by simp⟩
  · refine ⟨keptNodup, List.nodup_singleton _, ?_⟩
    intro a inKept b isLast
    rw [List.map_singleton, List.mem_singleton, id] at isLast
    rw [ids] at inKept
    obtain ⟨i, -, rfl⟩ := List.mem_map.mp inKept
    rw [isLast]
    exact otherId_ne i

end

/-! ### Writing communities onto nodes -/

/-- A community of some lists an id, and no other one does. -/
def ListedBy (communities : List Community) (id : String) (c : Community) : Prop :=
  c ∈ communities ∧ ∀ d ∈ communities, id ∈ d.memberIds ↔ d = c

/-- A file is as before; a symbol has the id of the community that lists it, and is otherwise as
before. -/
def Assigned (communities : List Community) (n n' : Node) : Prop :=
  if n.isFile then n' = n
  else ∃ c, ListedBy communities n.id c ∧ n' = { n with communityId := some c.id }

section

variable {communities : List Community}

theorem exists_listedBy (once : (communities.flatMap Community.memberIds).Nodup) {id : String}
    (listed : id ∈ communities.flatMap Community.memberIds) :
    ∃ c, ListedBy communities id c := by
  obtain ⟨c, member, inside⟩ := List.mem_flatMap.mp listed
  refine ⟨c, member, ?_⟩
  intro d inList
  constructor
  · intro inside'
    by_contra other
    have symmetric : Std.Symm (Function.onFun List.Disjoint Community.memberIds) :=
      ⟨fun _ _ disjoint => disjoint.symm⟩
    have apart := (List.nodup_flatMap.mp once).2.forall inList member other
    exact apart inside' inside
  · rintro rfl
    exact inside

theorem getElem?_membership (once : (communities.flatMap Community.memberIds).Nodup) {id : String}
    {c : Community} (listed : ListedBy communities id c) :
    (membership communities)[id]? = some c.id := by
  have table : membership communities = (communities.flatMap fun c =>
      c.memberIds.map fun m => (m, c.id)).foldl (fun found x => found.insert x.1 x.2) {} := by
    rw [List.foldl_flatMap]
    simp only [List.foldl_map]
    rfl
  have keys : (communities.flatMap fun c => c.memberIds.map fun m => (m, c.id)).map Prod.fst =
      communities.flatMap Community.memberIds := by
    rw [List.map_flatMap]
    simp only [List.map_map, Function.comp_def, List.map_id']
  obtain ⟨member, only⟩ := listed
  rw [table, getElem?_foldl_insert (by rwa [keys]), List.mem_flatMap]
  exact ⟨c, member, List.mem_map_of_mem ((only c member).mpr rfl)⟩

theorem assign_assigned {nodes : List Node}
    (once : (communities.flatMap Community.memberIds).Nodup)
    (all : ∀ n ∈ nodes, n.isFile = false → n.id ∈ communities.flatMap Community.memberIds) :
    List.Forall₂ (Assigned communities) nodes (assign communities nodes) := by
  rw [assign, List.forall₂_map_right_iff, List.forall₂_same]
  intro n member
  unfold Assigned
  cases file : n.isFile with
  | true => rfl
  | false =>
    obtain ⟨c, listed⟩ := exists_listedBy once (all n member file)
    refine ⟨c, listed, ?_⟩
    simp only [getElem?_membership once listed]
    rfl

end

/-! ### Partition -/

/-- The symbols among nodes. -/
def symbolsOf (nodes : List Node) : List Node :=
  nodes.filter (! ·.isFile)

/-- What the communities of nodes and edges are. -/
structure Partition (nodes : List Node) (edges : List Edge) (communities : List Community) :
    Prop where
  listed : (communities.flatMap Community.memberIds).Perm ((symbolsOf nodes).map Node.id)
  count : ∀ c ∈ communities, c.memberIds ≠ [] ∧ c.symbolCount = c.memberIds.length
  ids : (communities.map Community.id).Nodup
  ranked : (joinedPairs (symbolsOf nodes) edges).Nonempty → Ranked communities
  unranked : ¬ (joinedPairs (symbolsOf nodes) edges).Nonempty →
    communities.map Community.id = if symbolsOf nodes = [] then [] else ["community:0"]
  /-- The number of members is one that a machine word holds. -/
  cohesion : (joinedPairs (symbolsOf nodes) edges).Nonempty →
    ∀ c ∈ communities, c.symbolCount < 2 ^ 64 →
      c.cohesion = share (joinedWithin (symbolsOf nodes) edges c.memberIds).ncard c.symbolCount ∧
        Double.InUnit c.cohesion
  assigned : List.Forall₂ (Assigned communities) nodes (assign communities nodes)

section

variable {nodes : List Node} {edges : List Edge}

theorem weights_nonempty (distinct : ((symbolsOf nodes).map Node.id).Nodup)
    (inUnit : ∀ e ∈ edges, Double.InUnit e.confidence) :
    weighedPairs (symbolsOf nodes) edges ≠ [] ↔
      (joinedPairs (symbolsOf nodes) edges).Nonempty := by
  constructor
  · intro nonempty
    obtain ⟨p, member⟩ := List.exists_mem_of_ne_nil _ nonempty
    exact ⟨_, ((mem_weighedPairs distinct inUnit).mp member).2.2⟩
  · rintro ⟨s, joined⟩
    obtain ⟨p, member, -⟩ := exists_weighedPair distinct inUnit joined
    exact List.ne_nil_of_mem member

/-- The edges by which the symbols are clustered. -/
def weightedEdges (symbols : List Node) (edges : List Edge) : List (WeightedEdge Float) :=
  (pairWeights ((positions symbols)[·]?) edges).map fun x => ⟨x.1.first, x.1.second, x.2⟩

theorem exists_pair_of_weightedEdge {symbols : List Node} {e : WeightedEdge Float}
    (member : e ∈ weightedEdges symbols edges) :
    ∃ p ∈ weighedPairs symbols edges, e.a = p.first ∧ e.b = p.second := by
  obtain ⟨x, listed, rfl⟩ := List.mem_map.mp member
  exact ⟨x.1, List.mem_map_of_mem listed, rfl, rfl⟩

/-- Where a pair is joined, the symbols are clustered, and the communities are those of the
clusters. -/
theorem ofParts_clustered (distinct : ((symbolsOf nodes).map Node.id).Nodup)
    (inUnit : ∀ e ∈ edges, Double.InUnit e.confidence)
    (joined : (joinedPairs (symbolsOf nodes) edges).Nonempty) :
    ∃ assignment : Array Nat, assignment.size = (symbolsOf nodes).length ∧
      cluster? (symbolsOf nodes).length (weightedEdges (symbolsOf nodes) edges)
        (resolution (symbolsOf nodes).length) = some assignment ∧
      ofParts nodes edges = ofAssignment (symbolsOf nodes).toArray
        (weighedPairs (symbolsOf nodes) edges) assignment := by
  have some : symbolsOf nodes ≠ [] := by
    obtain ⟨s, -, known, -⟩ := joined
    induction s with | h a b =>
    obtain ⟨n, member, -⟩ := List.mem_map.mp (known a (Sym2.mem_mk_left a b))
    exact List.ne_nil_of_mem member
  have pairs := (weights_nonempty distinct inUnit).mpr joined
  have weights : pairWeights ((positions (symbolsOf nodes))[·]?) edges ≠ [] := by
    intro none
    exact pairs (by rw [weighedPairs, none, List.map_nil])
  have sound : ∀ e ∈ weightedEdges (symbolsOf nodes) edges,
      (e.a < (symbolsOf nodes).length ∧ e.b < (symbolsOf nodes).length) ∧ Weighty e.weight := by
    intro e listed
    obtain ⟨⟨p, w⟩, member, rfl⟩ := List.mem_map.mp listed
    obtain ⟨order, inside, -⟩ :=
      (mem_weighedPairs distinct inUnit).mp (List.mem_map_of_mem member)
    have heavy : Weighty w := pairWeights_weighty inUnit (p, w) member
    exact ⟨⟨order.trans inside, inside⟩, heavy⟩
  have edges' : weightedEdges (symbolsOf nodes) edges ≠ [] := by
    rwa [weightedEdges, Ne, List.map_eq_nil_iff]
  obtain ⟨assignment, found, size, -⟩ := exists_cluster edges' sound
    (resolution (symbolsOf nodes).length)
  refine ⟨assignment, size, found, ?_⟩
  rw [weightedEdges] at found
  have noSymbols : (symbolsOf nodes).isEmpty = false := by simpa using some
  have noWeights : (pairWeights ((positions (symbolsOf nodes))[·]?) edges).isEmpty = false := by
    simpa using weights
  unfold symbolsOf at noSymbols noWeights found ⊢
  simp only [ofParts, noSymbols, noWeights, found, Bool.false_eq_true, if_false]
  rfl

/-- Where a pair is joined, the communities are those of a clustering. -/
theorem ofParts_detected (distinct : ((symbolsOf nodes).map Node.id).Nodup)
    (inUnit : ∀ e ∈ edges, Double.InUnit e.confidence)
    (joined : (joinedPairs (symbolsOf nodes) edges).Nonempty) :
    ∃ assignment : Array Nat, assignment.size = (symbolsOf nodes).length ∧
      ofParts nodes edges = ofAssignment (symbolsOf nodes).toArray
        (weighedPairs (symbolsOf nodes) edges) assignment := by
  obtain ⟨assignment, size, -, parts⟩ := ofParts_clustered distinct inUnit joined
  exact ⟨assignment, size, parts⟩

/-- Where no pair is joined, all symbols are one community. -/
theorem ofParts_undetected (distinct : ((symbolsOf nodes).map Node.id).Nodup)
    (inUnit : ∀ e ∈ edges, Double.InUnit e.confidence)
    (joined : ¬ (joinedPairs (symbolsOf nodes) edges).Nonempty) :
    ofParts nodes edges = if symbolsOf nodes = [] then [] else [single (symbolsOf nodes)] := by
  have pairs : weighedPairs (symbolsOf nodes) edges = [] := by
    by_contra nonempty
    exact joined ((weights_nonempty distinct inUnit).mp nonempty)
  have weights : pairWeights ((positions (symbolsOf nodes))[·]?) edges = [] :=
    List.map_eq_nil_iff.mp pairs
  unfold symbolsOf at weights ⊢
  simp only [ofParts, weights, List.isEmpty_iff, if_true]

theorem ofParts_listed (distinct : ((symbolsOf nodes).map Node.id).Nodup)
    (inUnit : ∀ e ∈ edges, Double.InUnit e.confidence) :
    ((ofParts nodes edges).flatMap Community.memberIds).Perm ((symbolsOf nodes).map Node.id) := by
  by_cases joined : (joinedPairs (symbolsOf nodes) edges).Nonempty
  · obtain ⟨assignment, size, parts⟩ := ofParts_detected distinct inUnit joined
    rw [parts]
    exact ofAssignment_perm _ (by rw [size, List.size_toArray])
  · rw [ofParts_undetected distinct inUnit joined]
    by_cases none : symbolsOf nodes = []
    · rw [if_pos none, none]
      exact List.Perm.nil
    · rw [if_neg none, List.flatMap_singleton]
      exact List.Perm.refl _

theorem ofParts_assigned (distinct : ((symbolsOf nodes).map Node.id).Nodup)
    (inUnit : ∀ e ∈ edges, Double.InUnit e.confidence) :
    List.Forall₂ (Assigned (ofParts nodes edges)) nodes (assign (ofParts nodes edges) nodes) := by
  have listed := ofParts_listed distinct inUnit
  apply assign_assigned (listed.nodup_iff.mpr distinct)
  intro n member symbol
  have inSymbols : n ∈ symbolsOf nodes := List.mem_filter.mpr ⟨member, by simp [symbol]⟩
  exact listed.symm.subset (List.mem_map_of_mem inSymbols)

/-- The communities of a clustering are a partition of the symbols. -/
theorem detected_partition (distinct : ((symbolsOf nodes).map Node.id).Nodup)
    (inUnit : ∀ e ∈ edges, Double.InUnit e.confidence)
    (joined : (joinedPairs (symbolsOf nodes) edges).Nonempty) :
    Partition nodes edges (ofParts nodes edges) := by
  obtain ⟨assignment, size, parts⟩ := ofParts_detected distinct inUnit joined
  have ranked : Ranked (ofParts nodes edges) := by
    rw [parts]
    exact ofAssignment_ranked _ _ _
  have groups : ∀ c ∈ ofParts nodes edges, ∃ id name? group,
      c = ofGroup (symbolsOf nodes).toArray (weighedPairs (symbolsOf nodes) edges) id name?
        group ∧ group ≠ [] ∧ group.Nodup ∧ ∀ i ∈ group, i < (symbolsOf nodes).length := by
    intro c member
    rw [parts] at member
    rw [← size]
    exact mem_ofAssignment member
  refine ⟨ofParts_listed distinct inUnit, ?_, ranked.ids_nodup, fun _ => ranked, absurd joined, ?_,
    ofParts_assigned distinct inUnit⟩
  · intro c member
    obtain ⟨id, name?, group, rfl, some, -, inside⟩ := groups c member
    rw [memberIds_ofGroup _ _ _ inside, List.length_map]
    exact ⟨by simpa using some, rfl⟩
  · intro _ c member small
    obtain ⟨id, name?, group, rfl, -, onceIn, inside⟩ := groups c member
    rw [memberIds_ofGroup _ _ _ inside]
    exact cohesion_eq distinct inUnit inside onceIn small

/-- The one community of all symbols is a partition of them. -/
theorem undetected_partition (distinct : ((symbolsOf nodes).map Node.id).Nodup)
    (inUnit : ∀ e ∈ edges, Double.InUnit e.confidence)
    (joined : ¬ (joinedPairs (symbolsOf nodes) edges).Nonempty) :
    Partition nodes edges (ofParts nodes edges) := by
  have parts := ofParts_undetected distinct inUnit joined
  refine ⟨ofParts_listed distinct inUnit, ?_, ?_, fun some => absurd some joined, fun _ => ?_,
    fun some => absurd some joined, ofParts_assigned distinct inUnit⟩
  · intro c member
    rw [parts] at member
    split_ifs at member with none
    · cases member
    · rw [List.mem_singleton.mp member]
      exact ⟨by simpa [single] using none, by simp [single]⟩
  · rw [parts]
    split_ifs
    · exact List.nodup_nil
    · exact List.nodup_singleton _
  · rw [parts]
    split_ifs
    · rfl
    · rfl

/-- The communities of nodes with distinct ids and of edges with certainties are a partition of
the symbols. -/
theorem ofParts_partition (distinct : (nodes.map Node.id).Nodup)
    (inUnit : ∀ e ∈ edges, Double.InUnit e.confidence) :
    Partition nodes edges (ofParts nodes edges) := by
  have sublist : ((symbolsOf nodes).map Node.id).Sublist (nodes.map Node.id) :=
    List.filter_sublist.map _
  have symbolIds := distinct.sublist sublist
  by_cases joined : (joinedPairs (symbolsOf nodes) edges).Nonempty
  · exact detected_partition symbolIds inUnit joined
  · exact undetected_partition symbolIds inUnit joined

/-- A call that is made with full certainty keeps it. -/
theorem confidence_sure (source target reason : String) :
    (Edge.make source target .calls 1.0 reason).confidence = 1.0 :=
  Double.clampUnit_eq (Double.one_denotes.inUnit le_rfl)

/-- Two symbols are joined by a call of full certainty. -/
theorem joined_of_sure {symbols : List Node} {edges : List Edge} {a b : Node} {reason : String}
    (known : a ∈ symbols) (known' : b ∈ symbols) (different : a.id ≠ b.id)
    (call : Edge.make a.id b.id .calls 1.0 reason ∈ edges) :
    s(a.id, b.id) ∈ joinedPairs symbols edges := by
  have certain : leastCertainty ≤ (Edge.make a.id b.id .calls 1.0 reason).confidence := by
    rw [confidence_sure]
    exact (half_denotes.le_iff Double.one_denotes).mpr (by norm_num)
  refine ⟨different, ?_, _, call, .inl rfl, certain, rfl⟩
  intro id listed
  rcases Sym2.mem_iff.mp listed with rfl | rfl
  · exact List.mem_map_of_mem known
  · exact List.mem_map_of_mem known'

/-- Two functions of a file, one of which calls the other. -/
theorem ofParts_partition_call :
    let f := Node.ofSymbol .function "f" "a.py" "python" 1 2
    let g := Node.ofSymbol .function "g" "a.py" "python" 3 4
    let nodes := [Node.ofFile "a.py" "python", f, g]
    let edges := [Edge.make f.id g.id .calls 1.0 "same-file"]
    (nodes.map Node.id).Nodup ∧ (∀ e ∈ edges, Double.InUnit e.confidence) ∧
      (joinedPairs (symbolsOf nodes) edges).Nonempty ∧
      Partition nodes edges (ofParts nodes edges) := by
  intro f g nodes edges
  have distinct : (nodes.map Node.id).Nodup := by decide
  have inUnit : ∀ e ∈ edges, Double.InUnit e.confidence := by
    intro e member
    rw [List.mem_singleton.mp member, confidence_sure]
    exact Double.one_denotes.inUnit le_rfl
  have joined : s(f.id, g.id) ∈ joinedPairs (symbolsOf nodes) edges :=
    joined_of_sure (by decide) (by decide) (by decide) (List.mem_singleton_self _)
  exact ⟨distinct, inUnit, ⟨_, joined⟩, ofParts_partition distinct inUnit⟩

end

end CodeAtlas.Communities
