import CodeAtlas.Scalar

/-!
Fusing two rankings. A document gets `1 / (k + rank)` from each list that holds it, ranks being
counted from one; documents of equal score stay in the order in which they were first met.
-/

namespace CodeAtlas.Search

/-- The ranking in which a document was found. -/
inductive Ranking where
  | bm25
  | semantic
  deriving Repr, DecidableEq

/-- The name of a ranking. -/
def Ranking.name : Ranking → String
  | bm25 => "bm25"
  | semantic => "semantic"

variable {α : Type} [Scalar α]

/-- A document of one ranking with its score there. -/
structure Hit (α : Type) where
  doc : Nat
  score : α

/-- A document with its fused score and the rankings that hold it. -/
structure Fused (α : Type) where
  doc : Nat
  score : α
  sources : List Ranking

/-- What a document at a position gets from a list. -/
def contribution (k position : Nat) : α :=
  Scalar.one / (Scalar.ofNat k + Scalar.ofNat position + Scalar.one)

/-- Adds what one list gives to a document, which is new or known. -/
def addContribution (source : Ranking) (doc : Nat) (c : α) : List (Fused α) → List (Fused α)
  | [] => [⟨doc, c, [source]⟩]
  | h :: rest =>
    if h.doc = doc then
      { h with
        score := h.score + c
        sources := if h.sources.contains source then h.sources else h.sources ++ [source] } :: rest
    else h :: addContribution source doc c rest

/-- A document that is new comes last, and one that is known keeps its place. -/
theorem map_doc_addContribution (source : Ranking) (doc : Nat) (c : α) (fused : List (Fused α)) :
    (addContribution source doc c fused).map Fused.doc =
      if doc ∈ fused.map Fused.doc then fused.map Fused.doc
      else fused.map Fused.doc ++ [doc] := by
  induction fused with
  | nil => rfl
  | cons h rest ih =>
    unfold addContribution
    by_cases same : h.doc = doc
    · simp [same]
    · have other : doc ≠ h.doc := fun e => same e.symm
      simp only [same, if_false, List.map_cons, ih, List.mem_cons, other, false_or]
      split <;> simp

/-- Adds the contributions of a whole ranking, best document first. -/
def addRanking (k : Nat) (source : Ranking) (docs : List Nat) (fused : List (Fused α)) :
    List (Fused α) :=
  docs.zipIdx.foldl (fun fused (doc, position) =>
    addContribution source doc (contribution k position) fused) fused

/-- The documents of two rankings, the best fused score first. -/
def fuse (bm25 semantic : List Nat) (k : Nat) : List (Fused α) :=
  Scalar.ranked Fused.score (fun _ _ => true)
    (addRanking k .semantic semantic (addRanking k .bm25 bm25 []))

end CodeAtlas.Search
