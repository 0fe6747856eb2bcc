import CodeAtlas.Proofs.Search.Fusion
import CodeAtlas.Search.Engine
import Mathlib.Data.List.Sigma
import Mathlib.Data.String.Basic

/-!
# The order of search results

Each ranking lists a document at most once. The results of a search are the first of the fused documents,
the greatest scores first; of documents with one score the shorter one comes first, and then the one with
the smaller id.
-/

namespace CodeAtlas.Search

namespace Engine

/-- By what documents of one score are ordered: their lengths and then their ids. -/
def standing (e : Engine) (i : Nat) : Nat ×ₗ String :=
  match e.documents[i]? with
  | some d => toLex (d.length, d.node.id)
  | none => toLex (0, "")

section

variable {e : Engine} {i j : Nat}

theorem standing_of_getElem? {d : Document} (found : e.documents[i]? = some d) :
    e.standing i = toLex (d.length, d.node.id) := by
  rw [standing, found]

theorem tieBefore_eq (inside : i < e.size) (inside' : j < e.size) :
    e.tieBefore i j = decide (e.standing i ≤ e.standing j) := by
  have found : e.documents[i]? = some e.documents[i] := Array.getElem?_eq_getElem inside
  have found' : e.documents[j]? = some e.documents[j] := Array.getElem?_eq_getElem inside'
  rw [tieBefore, found, found', standing_of_getElem? found, standing_of_getElem? found']
  dsimp only
  generalize e.documents[i] = d
  generalize e.documents[j] = f
  rw [Bool.eq_iff_iff, decide_eq_true_iff, Prod.Lex.toLex_le_toLex]
  rcases lt_trichotomy d.length f.length with less | same | greater
  · simp [less]
  · simp [same]
  · simp [greater, greater.not_gt, greater.ne']

/-- Documents whose scores are compared as numbers are ranked by their scores, and then as they stand. -/
theorem rankedBy_standing {α β ν : Type} [Scalar α] [LinearOrder ν] {score : β → α} {doc : β → Nat}
    {items : List β} (number : β → ν) (inside : ∀ x ∈ items, doc x < e.size)
    (numbers : ∀ a ∈ items, ∀ b ∈ items,
      Scalar.less (score a) (score b) = decide (number a < number b)) :
    Scalar.RankedBy score (fun a b => e.tieBefore (doc a) (doc b))
      (fun x => toLex (OrderDual.toDual (number x), e.standing (doc x))) items :=
  Scalar.rankedBy_pair numbers fun a member b member' =>
    tieBefore_eq (inside a member) (inside b member')

end

/-! ### Rankings -/

section

variable {α : Type} {e : Engine}

/-- The hits of the documents that have a score. -/
def hitsBy (e : Engine) (score? : Document → Option α) : List (Hit α) :=
  e.documents.toList.zipIdx.filterMap fun x => (score? x.1).map fun score => ⟨x.2, score⟩

theorem mem_hitsBy {score? : Document → Option α} {h : Hit α} :
    h ∈ e.hitsBy score? ↔ ∃ d, e.documents[h.doc]? = some d ∧ score? d = some h.score := by
  rw [hitsBy, List.mem_filterMap]
  constructor
  · rintro ⟨⟨d, i⟩, listed, scored⟩
    obtain ⟨score, found, rfl⟩ := Option.map_eq_some_iff.mp scored
    rw [List.mem_zipIdx_iff_getElem?, Array.getElem?_toList] at listed
    exact ⟨d, listed, found⟩
  · rintro ⟨d, found, scored⟩
    refine ⟨(d, h.doc), ?_, ?_⟩
    · rwa [List.mem_zipIdx_iff_getElem?, Array.getElem?_toList]
    · rw [scored, Option.map_some]

theorem lt_size_of_mem_hitsBy {score? : Document → Option α} {h : Hit α}
    (member : h ∈ e.hitsBy score?) : h.doc < e.size := by
  obtain ⟨d, found, -⟩ := mem_hitsBy.mp member
  exact (Array.getElem?_eq_some_iff.mp found).choose

/-- No document is hit twice. -/
theorem nodup_hitsBy (e : Engine) (score? : Document → Option α) :
    ((e.hitsBy score?).map Hit.doc).Nodup := by
  have positions : ((e.hitsBy score?).map Hit.doc).Sublist (e.documents.toList.zipIdx.map Prod.snd) := by
    unfold hitsBy
    rw [List.map_filterMap]
    induction e.documents.toList.zipIdx with
    | nil => exact List.Sublist.refl _
    | cons x rest ih =>
      rw [List.map_cons]
      cases scored : score? x.1 with
      | none =>
        rw [List.filterMap_cons_none (by rw [scored]; rfl)]
        exact ih.cons x.2
      | some score =>
        rw [List.filterMap_cons_some (b := x.2) (by rw [scored]; rfl)]
        exact ih.cons_cons x.2
  exact (List.nodup_zipIdx_map_snd _).sublist positions

/-- A result shows a fused document. -/
def Shows (e : Engine) (h : Fused α) (r : Result α) : Prop :=
  ∃ d, e.documents[h.doc]? = some d ∧ r = ⟨d.node, h.score, h.sources⟩

theorem shows_filterMap {fused : List (Fused α)} (inside : ∀ h ∈ fused, h.doc < e.size) :
    List.Forall₂ e.Shows fused (fused.filterMap fun h =>
      (e.documents[h.doc]?).map fun d => ⟨d.node, h.score, h.sources⟩) := by
  induction fused with
  | nil => exact .nil
  | cons h rest ih =>
    have found := Array.getElem?_eq_getElem (inside h List.mem_cons_self)
    rw [List.filterMap_cons_some (by rw [found]; rfl)]
    exact .cons ⟨_, found, rfl⟩ (ih fun g member => inside g (List.mem_cons_of_mem h member))

variable [Scalar α] {hits : List (Hit α)} {limit : Nat}

theorem rank_sublist (e : Engine) (hits : List (Hit α)) (limit : Nat) :
    ∃ ranked, ranked.Perm (hits.filter fun h => Scalar.less Scalar.zero h.score) ∧
      (e.rank hits limit).Sublist ranked :=
  ⟨_, Scalar.ranked_perm _ _ _, List.take_sublist _ _⟩

theorem rank_nil (e : Engine) (limit : Nat) : e.rank ([] : List (Hit α)) limit = [] := by
  rw [rank, List.filter_nil, Scalar.ranked, List.mergeSort_nil, List.take_nil]

theorem nodup_rank (once : (hits.map Hit.doc).Nodup) : ((e.rank hits limit).map Hit.doc).Nodup := by
  obtain ⟨ranked, perm, sub⟩ := e.rank_sublist hits limit
  have passing := once.sublist ((List.filter_sublist (l := hits)
    (p := fun h => Scalar.less Scalar.zero h.score)).map Hit.doc)
  exact ((perm.map Hit.doc).nodup_iff.mpr passing).sublist (sub.map Hit.doc)

theorem mem_of_mem_rank {h : Hit α} (member : h ∈ e.rank hits limit) :
    h ∈ hits ∧ Scalar.less Scalar.zero h.score = true := by
  obtain ⟨ranked, perm, sub⟩ := e.rank_sublist hits limit
  exact List.mem_filter.mp (perm.mem_iff.mp (sub.subset member))

/-- The share of the terms that a document has; none if there are no terms. -/
def overlapScore? (terms : List String) (d : Document) : Option α :=
  if terms.isEmpty then none else some (overlapScore terms d)

theorem sharedHits_eq (e : Engine) (query : String) (limit : Nat) :
    (e.sharedHits query limit : List (Hit α)) =
      e.rank (e.hitsBy (overlapScore? (queryTerms query))) limit := by
  unfold sharedHits hitsBy overlapScore?
  dsimp only
  cases (queryTerms query).isEmpty with
  | true =>
    have nothing : e.documents.toList.zipIdx.filterMap
        (fun x => (none : Option α).map fun score => (⟨x.2, score⟩ : Hit α)) = [] :=
      List.filterMap_eq_nil_iff.mpr fun _ _ => rfl
    rw [if_pos rfl]
    simp only [if_true, nothing, rank_nil]
  | false => exact congrArg (e.rank · limit) (congrFun List.filterMap_eq_map.symm _)

theorem nodup_sharedHits (e : Engine) (query : String) (limit : Nat) :
    ((e.sharedHits query limit : List (Hit α)).map Hit.doc).Nodup := by
  rw [sharedHits_eq]
  exact nodup_rank (e.nodup_hitsBy _)

theorem lt_size_of_mem_sharedHits {query : String} {h : Hit α} (member : h ∈ e.sharedHits query limit) :
    h.doc < e.size := by
  rw [sharedHits_eq] at member
  exact lt_size_of_mem_hitsBy (mem_of_mem_rank member).1

end

section

variable {α : Type} [LogScalar α] {e : Engine} {c : Constants α} {query : String} {limit : Nat}

/-- The terms of a query with their rarity. -/
def weighedTerms (e : Engine) (query : String) : List (String × α) :=
  (queryTerms query).map fun term => (term, rarity e.size (e.documentFrequency term))

theorem termHits_eq (e : Engine) (c : Constants α) (query : String) (limit : Nat) :
    e.termHits c query limit =
      e.rank (e.hitsBy (bm25Score? c e.averageLength (e.weighedTerms query))) limit :=
  rfl

theorem nodup_termHits (e : Engine) (c : Constants α) (query : String) (limit : Nat) :
    ((e.termHits c query limit).map Hit.doc).Nodup := by
  rw [termHits_eq]
  exact nodup_rank (e.nodup_hitsBy _)

theorem lt_size_of_mem_termHits {h : Hit α} (member : h ∈ e.termHits c query limit) :
    h.doc < e.size := by
  rw [termHits_eq] at member
  exact lt_size_of_mem_hitsBy (mem_of_mem_rank member).1

/-! ### Results -/

/-- The documents that both rankings hand over, fused. -/
def fusedHits (e : Engine) (c : Constants α) (query : String) (limit : Nat) : List (Fused α) :=
  fuse ((e.termHits c query (limit * fusedLength)).map Hit.doc)
    ((e.sharedHits query (limit * fusedLength) : List (Hit α)).map Hit.doc) c.rrfK

theorem nodup_fusedHits (e : Engine) (c : Constants α) (query : String) (limit : Nat) :
    ((e.fusedHits c query limit).map Fused.doc).Nodup :=
  nodup_fuse _ _ _

theorem lt_size_of_mem_fusedHits {h : Fused α} (member : h ∈ e.fusedHits c query limit) :
    h.doc < e.size := by
  have listed := (mem_docs_fuse_iff (e.nodup_termHits c query _) (e.nodup_sharedHits query _) h.doc).mp
    (List.mem_map_of_mem member)
  rcases listed with first | second
  · obtain ⟨hit, member', same⟩ := List.mem_map.mp first
    exact same ▸ lt_size_of_mem_termHits member'
  · obtain ⟨hit, member', same⟩ := List.mem_map.mp second
    exact same ▸ lt_size_of_mem_sharedHits member'

/-- Which of two fused documents may come first: the one with the greater score, and if their scores are
equal the one that does not stand behind the other one by its length and id. -/
def Precedes (e : Engine) (a b : Fused α) : Prop :=
  Scalar.less a.score b.score = false ∧
    (Scalar.less b.score a.score = false → e.standing a.doc ≤ e.standing b.doc)

/-- The results are the first of what both rankings fuse to, no document twice, in order. -/
structure SearchesInOrder (e : Engine) (c : Constants α) (query : String) (limit : Nat) : Prop where
  atMost : (e.search c query limit).length ≤ limit
  termsOnce : ((e.termHits c query (limit * fusedLength)).map Hit.doc).Nodup
  sharedOnce : ((e.sharedHits query (limit * fusedLength) : List (Hit α)).map Hit.doc).Nodup
  ordered : ∃ fused : List (Fused α), fused.Perm (e.fusedHits c query limit) ∧
    (fused.map Fused.doc).Nodup ∧ fused.Pairwise e.Precedes ∧
      List.Forall₂ e.Shows (fused.take limit) (e.search c query limit)

/-- Where the fused scores are compared as numbers are, a search is in order. -/
theorem searchesInOrder_of_numbers {ν : Type} [LinearOrder ν] (number : α → ν)
    (numbers : ∀ a ∈ e.fusedHits c query limit, ∀ b ∈ e.fusedHits c query limit,
      Scalar.less a.score b.score = decide (number a.score < number b.score)) :
    e.SearchesInOrder c query limit := by
  have rankedBy := rankedBy_standing _ (fun h member => lt_size_of_mem_fusedHits member) numbers
  have perm := Scalar.ranked_perm Fused.score (fun a b => e.tieBefore a.doc b.doc)
    (e.fusedHits c query limit)
  have shows : List.Forall₂ e.Shows _ (e.search c query limit) :=
    shows_filterMap fun h member =>
      lt_size_of_mem_fusedHits (perm.mem_iff.mp (List.mem_of_mem_take member))
  refine ⟨?_, e.nodup_termHits c query _, e.nodup_sharedHits query _, _, perm, ?_, ?_, shows⟩
  · rw [← shows.length_eq]
    exact List.length_take_le _ _
  · rw [(perm.map Fused.doc).nodup_iff]
    exact e.nodup_fusedHits c query limit
  · refine rankedBy.sorted.imp_of_mem ?_
    intro a b member member' order
    have inA := perm.mem_iff.mp member
    have inB := perm.mem_iff.mp member'
    rw [Precedes, numbers a inA b inB, numbers b inB a inA, decide_eq_false_iff_not,
      decide_eq_false_iff_not]
    rcases Prod.Lex.toLex_le_toLex.mp order with greater | ⟨same, behind⟩
    · have less : number b.score < number a.score := OrderDual.toDual_lt_toDual.mp greater
      exact ⟨less.not_gt, fun notLess => absurd less notLess⟩
    · have equal : number a.score = number b.score := OrderDual.toDual_inj.mp same
      exact ⟨equal.not_lt, fun _ => behind⟩

end

end Engine

end CodeAtlas.Search
