import CodeAtlas.Proofs.Graph.Renaming
import CodeAtlas.Proofs.Scalar.Exact
import CodeAtlas.Proofs.Search.Selection
import Mathlib.Algebra.BigOperators.Group.List.Basic

/-!
# Documents in another order

A search sees the documents of an engine by their positions. With distinct ids no two documents stand
equal, so what comes first does not depend on these positions: in exact arithmetic the same nodes in
another order give the same results.
-/

namespace CodeAtlas.Search

variable {α : Type}

/-- A hit whose document has another number. -/
def Hit.renamed (σ : Nat → Nat) (h : Hit α) : Hit α :=
  { h with doc := σ h.doc }

/-- A fused entry whose document has another number. -/
def Fused.renamed (σ : Nat → Nat) (h : Fused α) : Fused α :=
  { h with doc := σ h.doc }

/-! ### Fusion of renamed documents -/

section

variable [Scalar α] {σ : Nat → Nat}

theorem addContribution_renamed (injective : σ.Injective) (source : Ranking) (doc : Nat) (c : α)
    (fused : List (Fused α)) :
    addContribution source (σ doc) c (fused.map (Fused.renamed σ)) =
      (addContribution source doc c fused).map (Fused.renamed σ) := by
  induction fused with
  | nil => rfl
  | cons h rest ih =>
    rw [List.map_cons, addContribution, addContribution]
    by_cases same : h.doc = doc
    · have same' : (h.renamed σ).doc = σ doc := congrArg σ same
      rw [if_pos same, if_pos same']
      rfl
    · have other : (h.renamed σ).doc ≠ σ doc := fun equal => same (injective equal)
      rw [if_neg same, if_neg other, ih, List.map_cons]

theorem addRanking_renamed (injective : σ.Injective) (k : Nat) (source : Ranking) (docs : List Nat)
    (fused : List (Fused α)) :
    addRanking k source (docs.map σ) (fused.map (Fused.renamed σ)) =
      (addRanking k source docs fused).map (Fused.renamed σ) := by
  unfold addRanking
  rw [List.zipIdx_map, List.foldl_map]
  generalize docs.zipIdx = positions
  induction positions generalizing fused with
  | nil => rfl
  | cons x rest ih =>
    rw [List.foldl_cons, List.foldl_cons, ← ih, ← addContribution_renamed injective]
    rfl

theorem fuse_renamed (injective : σ.Injective) (bm25 semantic : List Nat) (k : Nat) :
    (fuse (bm25.map σ) (semantic.map σ) k : List (Fused α)) =
      (fuse bm25 semantic k).map (Fused.renamed σ) := by
  have first := addRanking_renamed injective k .bm25 bm25 ([] : List (Fused α))
  rw [List.map_nil] at first
  rw [fuse, fuse, first, addRanking_renamed injective, Scalar.ranked, Scalar.ranked]
  refine (List.map_mergeSort ?_).symm
  intro a _ b _
  rfl

end

namespace Engine

/-- The documents of one engine are those of another one at other positions. -/
structure Renames (σ : Nat → Nat) (e e' : Engine) : Prop where
  injective : σ.Injective
  found : ∀ i, e'.documents[σ i]? = e.documents[i]?
  perm : e'.documents.toList.Perm e.documents.toList

/-- No two documents stand equal. -/
def Distinct (e : Engine) : Prop :=
  (e.documents.toList.map fun d => d.node.id).Nodup

section

variable {σ : Nat → Nat} {e e' : Engine}

theorem Renames.size_eq (renames : Renames σ e e') : e'.size = e.size :=
  renames.perm.length_eq

theorem Renames.standing_eq (renames : Renames σ e e') (i : Nat) :
    e'.standing (σ i) = e.standing i := by
  rw [standing, standing, renames.found]

theorem Distinct.position_eq (distinct : e.Distinct) {i j : Nat} {d f : Document}
    (found : e.documents[i]? = some d) (found' : e.documents[j]? = some f)
    (same : d.node.id = f.node.id) : i = j := by
  have inside := (Array.getElem?_eq_some_iff.mp found).choose
  apply (List.getElem?_inj (by rwa [List.length_map]) distinct).mp
  rw [List.getElem?_map, List.getElem?_map, Array.getElem?_toList, Array.getElem?_toList, found, found']
  exact congrArg some same

theorem Distinct.standing_injective (distinct : e.Distinct) {i j : Nat} (inside : i < e.size)
    (inside' : j < e.size) (same : e.standing i = e.standing j) : i = j := by
  have found := Array.getElem?_eq_getElem inside
  have found' := Array.getElem?_eq_getElem inside'
  rw [standing_of_getElem? found, standing_of_getElem? found'] at same
  exact distinct.position_eq found found' (congrArg (fun x => (ofLex x).2) same)

theorem Renames.documentFrequency_eq (renames : Renames σ e e') (term : String) :
    e'.documentFrequency term = e.documentFrequency term :=
  renames.perm.countP_eq _

theorem totalLength_eq_sum (e : Engine) :
    e.totalLength = (e.documents.toList.map Document.length).sum := by
  rw [totalLength, ← Array.foldl_toList, List.sum_eq_foldl, List.foldl_map]

theorem Renames.totalLength_eq (renames : Renames σ e e') : e'.totalLength = e.totalLength := by
  rw [totalLength_eq_sum, totalLength_eq_sum]
  exact (renames.perm.map _).sum_eq

theorem Renames.hitsBy_perm (renames : Renames σ e e') (score? : Document → Option α) :
    (e'.hitsBy score?).Perm ((e.hitsBy score?).map (Hit.renamed σ)) := by
  have moved : ∀ i, e'.documents.toList[σ i]? = e.documents.toList[i]? := by
    intro i
    rw [Array.getElem?_toList, Array.getElem?_toList, renames.found]
  have positions := zipIdx_renamed renames.injective moved renames.perm.length_eq.symm
  have hits := positions.filterMap fun x => (score? x.1).map fun score => (⟨x.2, score⟩ : Hit α)
  rw [List.filterMap_map] at hits
  have mapped : (e.hitsBy score?).map (Hit.renamed σ) = e.documents.toList.zipIdx.filterMap
      fun x => (score? x.1).map fun score => (⟨σ x.2, score⟩ : Hit α) := by
    rw [hitsBy, List.map_filterMap]
    congr 1
    funext x
    rw [Option.map_map]
    rfl
  rw [mapped]
  exact hits

theorem Renames.results_eq (renames : Renames σ e e') (source : Ranking) [Scalar α]
    (hits : List (Hit α)) : e'.results source (hits.map (Hit.renamed σ)) = e.results source hits := by
  rw [results, results, List.filterMap_map]
  congr 1
  funext h
  exact congrArg (Option.map _) (renames.found h.doc)

/-! ### Exact arithmetic -/

theorem Renames.ranked_eq {β : Type} {items items' : List β} (renames : Renames σ e e')
    (distinct : e.Distinct) (score : β → ℝ) (doc : β → Nat) (f : β → β) (scores : ∀ x, score (f x) = score x)
    (docs : ∀ x, doc (f x) = σ (doc x)) (inside : ∀ x ∈ items, doc x < e.size)
    (once : (items.map doc).Nodup) (perm : items'.Perm (items.map f)) :
    Scalar.ranked score (fun a b => e'.tieBefore (doc a) (doc b)) items' =
      (Scalar.ranked score (fun a b => e.tieBefore (doc a) (doc b)) items).map f := by
  have inside' : ∀ x ∈ items', doc x < e'.size := by
    intro y member
    obtain ⟨x, member', rfl⟩ := List.mem_map.mp (perm.mem_iff.mp member)
    have found := renames.found (doc x)
    rw [Array.getElem?_eq_getElem (inside x member')] at found
    rw [docs]
    exact (Array.getElem?_eq_some_iff.mp found).choose
  refine (rankedBy_standing score inside fun _ _ _ _ => rfl).ranked_map
    (rankedBy_standing score inside' fun _ _ _ _ => rfl) perm ?_ ?_
  · intro x _
    rw [scores, docs, renames.standing_eq]
  · refine (List.nodup_map_iff_inj_on once.of_map).mpr ?_
    intro x member y member' same
    have stand : e.standing (doc x) = e.standing (doc y) := congrArg (fun key => (ofLex key).2) same
    exact List.inj_on_of_nodup_map once member member'
      (distinct.standing_injective (inside x member) (inside y member') stand)

theorem Renames.rank_eq (renames : Renames σ e e') (distinct : e.Distinct)
    (score? : Document → Option ℝ) (limit : Nat) :
    e'.rank (e'.hitsBy score?) limit = (e.rank (e.hitsBy score?) limit).map (Hit.renamed σ) := by
  have passing := (renames.hitsBy_perm score?).filter fun h => Scalar.less Scalar.zero h.score
  rw [List.filter_map] at passing
  rw [rank, rank, List.map_take]
  congr 1
  apply renames.ranked_eq distinct Hit.score Hit.doc (Hit.renamed σ) (fun _ => rfl) (fun _ => rfl) ?_ ?_ passing
  · intro h member
    exact lt_size_of_mem_hitsBy (List.mem_of_mem_filter member)
  · exact (e.nodup_hitsBy score?).sublist (List.filter_sublist.map Hit.doc)

theorem Renames.averageLength_eq (renames : Renames σ e e') :
    (e'.averageLength : ℝ) = e.averageLength := by
  rw [averageLength, averageLength, renames.size_eq, renames.totalLength_eq]

theorem Renames.weighedTerms_eq (renames : Renames σ e e') (query : String) :
    (e'.weighedTerms query : List (String × ℝ)) = e.weighedTerms query := by
  unfold weighedTerms
  rw [renames.size_eq]
  exact List.map_congr_left fun term _ => by rw [renames.documentFrequency_eq]

theorem Renames.termHits_eq (renames : Renames σ e e') (distinct : e.Distinct) (c : Constants ℝ)
    (query : String) (limit : Nat) :
    e'.termHits c query limit = (e.termHits c query limit).map (Hit.renamed σ) := by
  rw [Engine.termHits_eq, Engine.termHits_eq, renames.averageLength_eq, renames.weighedTerms_eq,
    renames.rank_eq distinct]

theorem Renames.sharedHits_eq (renames : Renames σ e e') (distinct : e.Distinct) (query : String)
    (limit : Nat) : (e'.sharedHits query limit : List (Hit ℝ)) =
      (e.sharedHits query limit).map (Hit.renamed σ) := by
  rw [Engine.sharedHits_eq, Engine.sharedHits_eq, renames.rank_eq distinct]

theorem Renames.fusedHits_eq (renames : Renames σ e e') (distinct : e.Distinct) (c : Constants ℝ)
    (query : String) (limit : Nat) :
    e'.fusedHits c query limit = (e.fusedHits c query limit).map (Fused.renamed σ) := by
  rw [fusedHits, fusedHits, renames.termHits_eq distinct, renames.sharedHits_eq distinct,
    ← fuse_renamed renames.injective, List.map_map, List.map_map, List.map_map, List.map_map]
  rfl

theorem Renames.search_eq (renames : Renames σ e e') (distinct : e.Distinct) (c : Constants ℝ)
    (query : String) (limit : Nat) : e'.search c query limit = e.search c query limit := by
  have inside : ∀ h ∈ e.fusedHits c query limit, h.doc < e.size :=
    fun h member => lt_size_of_mem_fusedHits member
  have ranked := renames.ranked_eq distinct Fused.score Fused.doc (Fused.renamed σ) (fun _ => rfl)
    (fun _ => rfl) inside (e.nodup_fusedHits c query limit) (List.Perm.refl _)
  rw [← renames.fusedHits_eq distinct] at ranked
  show ((Scalar.ranked Fused.score (fun a b => e'.tieBefore a.doc b.doc)
    (e'.fusedHits c query limit)).take limit).filterMap _ = _
  rw [ranked, ← List.map_take, List.filterMap_map]
  show _ = ((Scalar.ranked Fused.score (fun a b => e.tieBefore a.doc b.doc)
    (e.fusedHits c query limit)).take limit).filterMap _
  congr 1
  funext h
  exact congrArg (Option.map _) (renames.found h.doc)

end

/-- The nodes in another order have the same documents. -/
theorem exists_renames {nodes nodes' : List Node} (perm : nodes.Perm nodes') :
    ∃ σ, Renames σ (ofNodes nodes) (ofNodes nodes') := by
  have documents := perm.map Document.ofNode
  obtain ⟨σ, injective, moved⟩ := exists_renaming documents
  refine ⟨σ, injective, ?_, documents.symm⟩
  intro i
  rw [ofNodes, ofNodes, List.getElem?_toArray, List.getElem?_toArray, moved]

theorem distinct_ofNodes {nodes : List Node} (once : (nodes.map Node.id).Nodup) :
    (ofNodes nodes).Distinct := by
  have ids : ((nodes.map Document.ofNode).map fun d => d.node.id) = nodes.map Node.id := by
    rw [List.map_map]
    rfl
  rwa [Distinct, ofNodes, ids]

/-- The same nodes in another order give the same results. -/
theorem search_reordered {nodes nodes' : List Node} (once : (nodes.map Node.id).Nodup)
    (perm : nodes.Perm nodes') (c : Constants ℝ) (query : String) (limit : Nat) :
    (ofNodes nodes').search c query limit = (ofNodes nodes).search c query limit ∧
      (ofNodes nodes').searchByTerms c query limit = (ofNodes nodes).searchByTerms c query limit ∧
      ((ofNodes nodes').searchByOverlap query limit : List (Result ℝ)) =
        (ofNodes nodes).searchByOverlap query limit := by
  obtain ⟨σ, renames⟩ := exists_renames perm
  have distinct := distinct_ofNodes once
  refine ⟨renames.search_eq distinct c query limit, ?_, ?_⟩
  · rw [searchByTerms, searchByTerms, renames.termHits_eq distinct, renames.results_eq]
  · rw [searchByOverlap, searchByOverlap, renames.sharedHits_eq distinct, renames.results_eq]

end Engine

end CodeAtlas.Search
