import CodeAtlas.Proofs.Search.Reordering
import CodeAtlas.Proofs.Search.Scores

/-!
# What a search finds

In exact arithmetic a search by terms finds the nodes whose documents have a term of the query, and a
search by overlap those whose documents overlap with one. What they find is the same in whatever order the
nodes are given.
-/

namespace CodeAtlas.Search

namespace Engine

section

variable {e : Engine} {source : Ranking} {score? : Document → Option ℝ} {limit : Nat}

/-- The results for the documents that have a score. -/
noncomputable def answers (e : Engine) (source : Ranking) (score? : Document → Option ℝ) (limit : Nat) :
    List (Result ℝ) :=
  e.results source (e.rank (e.hitsBy score?) limit)

theorem searchByTerms_eq (e : Engine) (c : Constants ℝ) (query : String) (limit : Nat) :
    e.searchByTerms c query limit =
      e.answers .bm25 (bm25Score? c e.averageLength (e.weighedTerms query)) limit :=
  rfl

theorem searchByOverlap_eq (e : Engine) (query : String) (limit : Nat) :
    e.searchByOverlap query limit = e.answers .semantic (overlapScore? (queryTerms query)) limit := by
  rw [searchByOverlap, sharedHits_eq, answers]

theorem mem_results_iff {hits : List (Hit ℝ)} {r : Result ℝ} : r ∈ e.results source hits ↔
    ∃ h ∈ hits, ∃ d, e.documents[h.doc]? = some d ∧ r = ⟨d.node, h.score, [source]⟩ := by
  rw [results, List.mem_filterMap]
  refine exists_congr fun h => and_congr_right fun _ => ?_
  rw [Option.map_eq_some_iff]
  exact exists_congr fun d => and_congr_right fun _ => eq_comm

/-- An answer shows a document with its score, which is positive. -/
theorem score_of_mem_answers {r : Result ℝ} (member : r ∈ e.answers source score? limit) :
    ∃ d ∈ e.documents.toList, r.node = d.node ∧ score? d = some r.score ∧ 0 < r.score := by
  obtain ⟨h, ranked, d, found, rfl⟩ := mem_results_iff.mp member
  obtain ⟨hit, positive⟩ := mem_of_mem_rank ranked
  obtain ⟨f, found', scored⟩ := mem_hitsBy.mp hit
  obtain rfl := Option.some.inj (found.symm.trans found')
  have positive' : 0 < h.score := by
    rwa [Scalar.less_iff, Scalar.zero_real] at positive
  exact ⟨d, Array.mem_toList_iff.mpr (Array.mem_of_getElem? found), rfl, scored, positive'⟩

/-- Where all may be shown, every document with a positive score is. -/
theorem mem_rank_of_size_le (all : e.size ≤ limit) {h : Hit ℝ} (hit : h ∈ e.hitsBy score?)
    (positive : 0 < h.score) : h ∈ e.rank (e.hitsBy score?) limit := by
  have passing : h ∈ (e.hitsBy score?).filter fun h => Scalar.less Scalar.zero h.score := by
    rw [List.mem_filter, Scalar.less_iff, Scalar.zero_real]
    exact ⟨hit, positive⟩
  have perm := Scalar.ranked_perm Hit.score (fun a b => e.tieBefore a.doc b.doc)
    ((e.hitsBy score?).filter fun h => Scalar.less Scalar.zero h.score)
  have few : (Scalar.ranked Hit.score (fun a b => e.tieBefore a.doc b.doc)
      ((e.hitsBy score?).filter fun h => Scalar.less Scalar.zero h.score)).length ≤ limit := by
    rw [perm.length_eq]
    have scored : (e.hitsBy score?).length ≤ e.documents.toList.zipIdx.length :=
      List.length_filterMap_le _ _
    rw [List.length_zipIdx, Array.length_toList] at scored
    exact (List.length_filter_le _ _).trans (scored.trans all)
  rw [rank, List.take_of_length_le few]
  exact perm.mem_iff.mpr passing

theorem mem_answers_of_size_le (all : e.size ≤ limit) {d : Document} (member : d ∈ e.documents.toList)
    {score : ℝ} (scored : score? d = some score) (positive : 0 < score) :
    ⟨d.node, score, [source]⟩ ∈ e.answers source score? limit := by
  obtain ⟨i, found⟩ := List.mem_iff_getElem?.mp member
  rw [Array.getElem?_toList] at found
  have hit : ⟨i, score⟩ ∈ e.hitsBy score? := mem_hitsBy.mpr ⟨d, found, scored⟩
  exact mem_results_iff.mpr ⟨_, mem_rank_of_size_le all hit positive, d, found, rfl⟩

/-- No node is shown twice. -/
theorem Distinct.nodup_answers (distinct : e.Distinct) (source : Ranking)
    (score? : Document → Option ℝ) (limit : Nat) :
    ((e.answers source score? limit).map Result.node).Nodup := by
  have ranked : ((e.rank (e.hitsBy score?) limit).map Hit.doc).Nodup := nodup_rank (e.nodup_hitsBy score?)
  have nodes : (e.answers source score? limit).map Result.node =
      ((e.rank (e.hitsBy score?) limit).map Hit.doc).filterMap fun i =>
        (e.documents[i]?).map Document.node := by
    rw [answers, results, List.map_filterMap, List.filterMap_map]
    congr 1
    funext h
    exact Option.map_map ..
  rw [nodes]
  refine ranked.filterMap ?_
  intro i j n first second
  obtain ⟨d, found, rfl⟩ := Option.map_eq_some_iff.mp first
  obtain ⟨f, found', same⟩ := Option.map_eq_some_iff.mp second
  exact distinct.position_eq found found' (congrArg Node.id same.symm)

end

/-! ### The nodes of a graph -/

section

variable {nodes : List Node} {source : Ranking} {score? : Document → Option ℝ} {limit : Nat}

theorem size_ofNodes (nodes : List Node) : (ofNodes nodes).size = nodes.length := by
  rw [size, ofNodes, List.size_toArray, List.length_map]

theorem score_of_mem_answers_ofNodes {r : Result ℝ}
    (member : r ∈ (ofNodes nodes).answers source score? limit) :
    r.node ∈ nodes ∧ score? (Document.ofNode r.node) = some r.score ∧ 0 < r.score := by
  obtain ⟨d, listed, same, scored, positive⟩ := score_of_mem_answers member
  obtain ⟨n, listed', rfl⟩ := List.mem_map.mp listed
  obtain rfl : r.node = n := same
  exact ⟨listed', scored, positive⟩

/-- Where all nodes may be shown, those with a positive score are. -/
theorem mem_nodes_answers_iff (all : nodes.length ≤ limit) {n : Node} :
    n ∈ ((ofNodes nodes).answers source score? limit).map Result.node ↔
      n ∈ nodes ∧ ∃ score, score? (Document.ofNode n) = some score ∧ 0 < score := by
  rw [List.mem_map]
  constructor
  · rintro ⟨r, member, rfl⟩
    obtain ⟨listed, scored⟩ := score_of_mem_answers_ofNodes member
    exact ⟨listed, r.score, scored⟩
  · rintro ⟨listed, score, scored, positive⟩
    have document : Document.ofNode n ∈ (ofNodes nodes).documents.toList := List.mem_map_of_mem listed
    rw [← size_ofNodes] at all
    exact ⟨_, mem_answers_of_size_le all document scored positive, rfl⟩

end

section

variable {nodes : List Node} {c : Constants ℝ} {query : String} {limit : Nat}

theorem overlapScore?_eq_some_iff {terms : List String} {d : Document} {score : ℝ} :
    overlapScore? terms d = some score ↔ terms ≠ [] ∧ overlapScore terms d = score := by
  unfold overlapScore?
  cases terms <;> simp

theorem mem_nodes_searchByTerms_iff (sensible : Sensible c) (all : nodes.length ≤ limit) {n : Node} :
    n ∈ ((ofNodes nodes).searchByTerms c query limit).map Result.node ↔
      n ∈ nodes ∧ ∃ term ∈ termsOf query, (Document.ofNode n).Has term := by
  rw [searchByTerms_eq, mem_nodes_answers_iff all, ← exists_bm25Score?_iff c]
  refine and_congr_right fun _ => exists_congr fun score => and_iff_left_of_imp fun scored => ?_
  exact bm25Score?_pos sensible (averageLength_nonneg _) scored

theorem mem_nodes_searchByOverlap_iff (all : nodes.length ≤ limit) {n : Node} :
    n ∈ ((ofNodes nodes).searchByOverlap query limit : List (Result ℝ)).map Result.node ↔
      n ∈ nodes ∧ ∃ term ∈ termsOf query, (Document.ofNode n).Touches term := by
  rw [searchByOverlap_eq, mem_nodes_answers_iff all]
  refine and_congr_right fun _ => ?_
  have touched : (0 : ℝ) < overlapScore (queryTerms query) (Document.ofNode n) ↔
      ∃ term ∈ termsOf query, (Document.ofNode n).Touches term := by
    rw [overlapScore_pos_iff]
    exact exists_congr fun term => and_congr_left fun _ => mem_queryTerms
  rw [← touched]
  constructor
  · rintro ⟨score, scored, positive⟩
    rwa [(overlapScore?_eq_some_iff.mp scored).2]
  · intro positive
    obtain ⟨term, listed, -⟩ := overlapScore_pos_iff.mp positive
    exact ⟨_, overlapScore?_eq_some_iff.mpr ⟨List.ne_nil_of_mem listed, rfl⟩, positive⟩

/-- What a search by overlap finds has a term to be found by, and its score is the share of the terms. -/
theorem score_of_mem_searchByOverlap {r : Result ℝ}
    (member : r ∈ (ofNodes nodes).searchByOverlap query limit) : queryTerms query ≠ [] ∧
      overlapScore (queryTerms query) (Document.ofNode r.node) = r.score ∧ 0 < r.score := by
  rw [searchByOverlap_eq] at member
  obtain ⟨-, scored, positive⟩ := score_of_mem_answers_ofNodes member
  obtain ⟨nonempty, score⟩ := overlapScore?_eq_some_iff.mp scored
  exact ⟨nonempty, score, positive⟩

end

/-- What the searches over a list of nodes find, in exact arithmetic. -/
structure AnswersExactly (nodes : List Node) (c : Constants ℝ) (query : String) : Prop where
  byTerms : ∀ limit, nodes.length ≤ limit → ∀ n,
    n ∈ ((ofNodes nodes).searchByTerms c query limit).map Result.node ↔
      n ∈ nodes ∧ ∃ term ∈ termsOf query, (Document.ofNode n).Has term
  termsOnce : ∀ limit, (((ofNodes nodes).searchByTerms c query limit).map Result.node).Nodup
  termsPositive : ∀ limit, ∀ r ∈ (ofNodes nodes).searchByTerms c query limit, 0 < r.score
  byOverlap : ∀ limit, nodes.length ≤ limit → ∀ n,
    n ∈ ((ofNodes nodes).searchByOverlap query limit : List (Result ℝ)).map Result.node ↔
      n ∈ nodes ∧ ∃ term ∈ termsOf query, (Document.ofNode n).Touches term
  overlapOnce : ∀ limit,
    (((ofNodes nodes).searchByOverlap query limit : List (Result ℝ)).map Result.node).Nodup
  both : ∀ limit, nodes.length ≤ limit →
    ∀ n ∈ ((ofNodes nodes).searchByTerms c query limit).map Result.node,
      n ∈ ((ofNodes nodes).searchByOverlap query limit : List (Result ℝ)).map Result.node
  share : ∀ limit, ∀ r ∈ ((ofNodes nodes).searchByOverlap query limit : List (Result ℝ)),
    0 < r.score ∧ r.score ≤ 1 ∧
      (r.score = 1 ↔ ∀ term ∈ termsOf query, (Document.ofNode r.node).Has term)
  covering : ∀ limit limit', ∀ r ∈ ((ofNodes nodes).searchByOverlap query limit : List (Result ℝ)),
    ∀ r' ∈ ((ofNodes nodes).searchByOverlap query limit' : List (Result ℝ)),
      (∀ term ∈ termsOf query,
        (Document.ofNode r'.node).Touches term → (Document.ofNode r.node).Has term) →
          r'.score ≤ r.score
  reordered : ∀ nodes', nodes.Perm nodes' → ∀ limit,
    (ofNodes nodes').search c query limit = (ofNodes nodes).search c query limit ∧
      (ofNodes nodes').searchByTerms c query limit = (ofNodes nodes).searchByTerms c query limit ∧
      ((ofNodes nodes').searchByOverlap query limit : List (Result ℝ)) =
        (ofNodes nodes).searchByOverlap query limit

theorem answers_exactly {nodes : List Node} (once : (nodes.map Node.id).Nodup) {c : Constants ℝ}
    (sensible : Sensible c) (query : String) : AnswersExactly nodes c query where
  byTerms _ all _ := mem_nodes_searchByTerms_iff sensible all
  termsOnce limit := (distinct_ofNodes once).nodup_answers _ _ limit
  termsPositive limit r member := (score_of_mem_answers_ofNodes member).2.2
  byOverlap _ all _ := mem_nodes_searchByOverlap_iff all
  overlapOnce limit := by
    rw [searchByOverlap_eq]
    exact (distinct_ofNodes once).nodup_answers _ _ limit
  both limit all n member := by
    obtain ⟨listed, term, asked, has⟩ := (mem_nodes_searchByTerms_iff sensible all).mp member
    exact (mem_nodes_searchByOverlap_iff all).mpr ⟨listed, term, asked, has.touches⟩
  share limit r member := by
    obtain ⟨nonempty, score, positive⟩ := score_of_mem_searchByOverlap member
    rw [← score] at positive ⊢
    refine ⟨positive, overlapScore_le_one _ _, (overlapScore_eq_one_iff nonempty).trans ?_⟩
    exact forall_congr' fun term => imp_congr_left mem_queryTerms
  covering limit limit' r member r' member' covers := by
    rw [← (score_of_mem_searchByOverlap member).2.1, ← (score_of_mem_searchByOverlap member').2.1]
    exact overlapScore_le fun term asked => covers term (mem_queryTerms.mp asked)
  reordered nodes' perm limit := search_reordered once perm c query limit

/-- A search for two terms finds the symbol that has both of them, with the greatest share. -/
theorem answers_exactly_pool :
    let pool := Node.ofSymbol .function "connectPool" "src/db/pool.ts" "typescript" 1 9
    let error := Node.ofSymbol .classType "ConnectionError" "src/db/errors.ts" "typescript" 1 3
    let c : Constants ℝ := ⟨6 / 5, 3 / 4, 60⟩
    AnswersExactly [pool, error] c "connect pool" ∧
      pool ∈ ((ofNodes [pool, error]).searchByTerms c "connect pool" 2).map Result.node ∧
      ∀ r ∈ ((ofNodes [pool, error]).searchByOverlap "connect pool" 2 : List (Result ℝ)),
        r.node = pool → r.score = 1 := by
  intro pool error c
  have once : ([pool, error].map Node.id).Nodup := by decide +kernel
  have sensible : Sensible c := ⟨by norm_num [c], by norm_num [c], by norm_num [c]⟩
  have answers := answers_exactly once sensible "connect pool"
  have terms : termsOf "connect pool" = ["connect", "pool"] := by decide +kernel
  have connect : (Document.ofNode pool).Has "connect" := by decide +kernel
  have pooled : (Document.ofNode pool).Has "pool" := by decide +kernel
  refine ⟨answers, ?_, ?_⟩
  · refine (answers.byTerms 2 le_rfl pool).mpr ⟨List.mem_cons_self, "pool", ?_, pooled⟩
    rw [terms]
    decide
  · rintro r member same
    refine (answers.share 2 r member).2.2.mpr ?_
    rw [same, terms]
    simp [connect, pooled]

end Engine

end CodeAtlas.Search
