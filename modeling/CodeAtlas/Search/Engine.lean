import CodeAtlas.Graph.Basic
import CodeAtlas.Scalar
import CodeAtlas.Search.Fusion
import CodeAtlas.Search.Term

/-!
Search over the nodes of a graph. Every node is a document made of its name, kind, path and
language. One ranking weighs the terms of the query by their frequency and rarity; the other counts
how many of them a document has, a term that only overlaps counting for less. The hybrid search
fuses both. Equal scores are ordered by the shorter document and then by the id.
-/

namespace CodeAtlas.Search

/-- A node with the terms of its text. -/
structure Document where
  node : Node
  tokens : List String

namespace Document

/-- The text under which a node is found. -/
def textOf (n : Node) : String :=
  n.label ++ " " ++ n.kind.name ++ " " ++ n.filePath ++ " " ++ n.directory ++ " " ++ n.language

/-- The document of a node. -/
def ofNode (n : Node) : Document :=
  ⟨n, termsOf (textOf n)⟩

/-- How many tokens a document has. -/
def length (d : Document) : Nat :=
  d.tokens.length

/-- The distinct tokens of a document. -/
def terms (d : Document) : List String :=
  d.tokens.eraseDups

/-- How often a term stands in a document. -/
def frequency (d : Document) (term : String) : Nat :=
  d.tokens.count term

end Document

/-- The documents of a graph. -/
structure Engine where
  documents : Array Document

/-- The constants of the scores. -/
structure Constants (α : Type) where
  k1 : α
  b : α
  rrfK : Nat

/-- The constants of the search, over the floating-point numbers. -/
def Constants.ofSettings (k1 b : Float) (rrfK : Nat) : Constants Float :=
  ⟨k1, b, rrfK⟩

/-- A document that was found, with its score and the rankings that hold it. -/
structure Result (α : Type) where
  node : Node
  score : α
  sources : List Ranking

namespace Engine

/-- The engine over the documents of nodes. -/
def ofNodes (nodes : List Node) : Engine :=
  ⟨(nodes.map Document.ofNode).toArray⟩

/-- How many documents there are. -/
def size (e : Engine) : Nat :=
  e.documents.size

/-- The distinct terms of a query. -/
def queryTerms (query : String) : List String :=
  (termsOf query).eraseDups

/-- The number of documents with a term. -/
def documentFrequency (e : Engine) (term : String) : Nat :=
  e.documents.toList.countP (·.tokens.contains term)

/-- The number of terms in all documents. -/
def totalLength (e : Engine) : Nat :=
  e.documents.foldl (fun total d => total + d.length) 0

/-- Whether a document comes before another of equal score. -/
def tieBefore (e : Engine) (a b : Nat) : Bool :=
  match e.documents[a]?, e.documents[b]? with
  | some d, some f =>
    if d.length < f.length then true
    else if f.length < d.length then false
    else decide (d.node.id ≤ f.node.id)
  | _, _ => true

section Scores

variable {α : Type}

/-- The best of the documents with a positive score. -/
def rank [Scalar α] (e : Engine) (hits : List (Hit α)) (limit : Nat) : List (Hit α) :=
  (Scalar.ranked Hit.score (fun a b => e.tieBefore a.doc b.doc)
    (hits.filter fun h => Scalar.less Scalar.zero h.score)).take limit

/-- The mean number of terms in a document. -/
def averageLength [Scalar α] (e : Engine) : α :=
  if e.size = 0 then Scalar.zero else Scalar.ofNat e.totalLength / Scalar.ofNat e.size

/-- How rare a term is that `df` of `n` documents have. -/
def rarity [LogScalar α] (n df : Nat) : α :=
  let half : α := Scalar.ofDecimal 5 1
  LogScalar.log (Scalar.one + (Scalar.ofNat n - Scalar.ofNat df + half) / (Scalar.ofNat df + half))

/-- What a term that occurs `tf` times adds to the score of a document of a given length. -/
def termScore [LogScalar α] (c : Constants α) (average rarity : α) (length tf : Nat) : α :=
  let tf : α := Scalar.ofNat tf
  let ratio := if Scalar.less Scalar.zero average then Scalar.ofNat length / average else Scalar.one
  let norm := tf + c.k1 * (Scalar.one - c.b + c.b * ratio)
  rarity * tf * (c.k1 + Scalar.one) / norm

/-- The score of a document for terms that come with their rarity; none where it has no term. -/
def bm25Score? [LogScalar α] (c : Constants α) (average : α) (terms : List (String × α))
    (d : Document) : Option α :=
  let present := terms.filter fun (term, _) => d.tokens.contains term
  if present.isEmpty then none
  else
    some (Scalar.sum (present.map fun (term, rarity) =>
      termScore c average rarity d.length (d.frequency term)))

/-- The ranking by frequency and rarity of the terms. -/
def termHits [LogScalar α] (e : Engine) (c : Constants α) (query : String) (limit : Nat) :
    List (Hit α) :=
  let terms := (queryTerms query).map fun term =>
    (term, (rarity e.size (e.documentFrequency term) : α))
  let average : α := e.averageLength
  e.rank (e.documents.toList.zipIdx.filterMap fun (d, i) =>
    (bm25Score? c average terms d).map fun score => ⟨i, score⟩) limit

/-- Whether a piece stands somewhere in a text. -/
def occursIn (piece : List Char) : List Char → Bool
  | [] => piece.isEmpty
  | c :: rest => (Text.afterStart? piece (c :: rest)).isSome || occursIn piece rest

/-- Whether one of two terms is part of the other. -/
def overlap (a b : String) : Bool :=
  occursIn a.toList b.toList || occursIn b.toList a.toList

/-- How many of the terms a document has, and how many others overlap with one that it has. -/
def matchCounts (terms : List String) (d : Document) : Nat × Nat :=
  let present := d.terms
  (terms.countP present.contains,
    terms.countP fun term => !present.contains term && present.any (overlap term))

/-- What a term counts for that only overlaps. -/
def overlapWeight [Scalar α] : α :=
  Scalar.ofDecimal 3 1

/-- The share of the terms that a document has, overlapping ones counting for less. -/
def overlapScore [Scalar α] (terms : List String) (d : Document) : α :=
  let (exact, overlapping) := matchCounts terms d
  (Scalar.ofNat exact + overlapWeight * Scalar.ofNat overlapping) / Scalar.ofNat terms.length

/-- The ranking by the share of the terms. -/
def sharedHits [Scalar α] (e : Engine) (query : String) (limit : Nat) : List (Hit α) :=
  let terms := queryTerms query
  if terms.isEmpty then []
  else
    e.rank (e.documents.toList.zipIdx.map fun (d, i) => ⟨i, overlapScore terms d⟩) limit

/-- The results for the documents of one ranking. -/
def results [Scalar α] (e : Engine) (source : Ranking) (hits : List (Hit α)) : List (Result α) :=
  hits.filterMap fun h => (e.documents[h.doc]?).map fun d => ⟨d.node, h.score, [source]⟩

/-- The best results by terms. -/
def searchByTerms [LogScalar α] (e : Engine) (c : Constants α) (query : String) (limit : Nat) :
    List (Result α) :=
  e.results .bm25 (e.termHits c query limit)

/-- Search by the share of the terms alone. -/
def searchByOverlap [Scalar α] (e : Engine) (query : String) (limit : Nat) : List (Result α) :=
  e.results .semantic (e.sharedHits query limit)

/-- How many documents each ranking hands over for one that is wanted. -/
def fusedLength : Nat := 3

/-- The best results of both rankings, fused. -/
def search [LogScalar α] (e : Engine) (c : Constants α) (query : String) (limit : Nat) :
    List (Result α) :=
  let depth := limit * fusedLength
  let fused : List (Fused α) :=
    fuse ((e.termHits c query depth).map Hit.doc)
      ((e.sharedHits query depth : List (Hit α)).map Hit.doc) c.rrfK
  ((Scalar.ranked Fused.score (fun a b => e.tieBefore a.doc b.doc) fused).take limit).filterMap
    fun h => (e.documents[h.doc]?).map fun d => ⟨d.node, h.score, h.sources⟩

end Scores

end Engine

end CodeAtlas.Search
