import CodeAtlas.Proofs.Scalar.Ranked
import CodeAtlas.Search.Fusion

/-!
# What two rankings fuse to

Of two rankings without repeated documents each document is listed once. Its score is what it gets from
the lists that hold it, and these are its sources.
-/

namespace CodeAtlas.Search

variable {α : Type}

/-! ### The entry of a document -/

/-- The entry of a document. -/
def entryOf? (fused : List (Fused α)) (d : Nat) : Option (Fused α) :=
  fused.find? fun h => h.doc = d

section

variable {fused : List (Fused α)} {h : Fused α}

theorem entryOf?_cons (h : Fused α) (fused : List (Fused α)) (d : Nat) :
    entryOf? (h :: fused) d = if h.doc = d then some h else entryOf? fused d := by
  by_cases here : h.doc = d
  · rw [if_pos here, entryOf?, List.find?_cons_of_pos (by simpa using here)]
  · rw [if_neg here, entryOf?, List.find?_cons_of_neg (by simpa using here), entryOf?]

theorem mem_iff_entryOf? (once : (fused.map Fused.doc).Nodup) :
    h ∈ fused ↔ entryOf? fused h.doc = some h := by
  induction fused with
  | nil => simp [entryOf?]
  | cons g rest ih =>
    rw [List.map_cons, List.nodup_cons] at once
    rw [entryOf?_cons, List.mem_cons, ih once.2]
    by_cases here : g.doc = h.doc
    · have absent : entryOf? rest h.doc ≠ some h := by
        intro later
        have member := List.mem_map_of_mem (f := Fused.doc) ((ih once.2).mpr later)
        exact once.1 (here ▸ member)
      simp [here, absent, eq_comm]
    · have other : h ≠ g := fun same => here (congrArg Fused.doc same).symm
      simp [here, other]

end

variable [Scalar α]

/-- The entry of a document after one more list has added to it. -/
def credited (source : Ranking) (d : Nat) (c : α) : Option (Fused α) → Fused α
  | some h =>
    { h with
      score := h.score + c
      sources := if h.sources.contains source then h.sources else h.sources ++ [source] }
  | none => ⟨d, c, [source]⟩

section

variable {fused : List (Fused α)} {source : Ranking} {d k : Nat} {docs : List Nat}

/-- One document's entry is credited, all others stay as they are. -/
theorem entryOf?_addContribution (source : Ranking) (doc : Nat) (c : α) (fused : List (Fused α)) (d : Nat) :
    entryOf? (addContribution source doc c fused) d =
      if d = doc then some (credited source d c (entryOf? fused d)) else entryOf? fused d := by
  induction fused with
  | nil =>
    rw [addContribution, entryOf?_cons]
    by_cases here : d = doc
    · rw [if_pos here.symm, if_pos here, here]
      rfl
    · rw [if_neg (Ne.symm here), if_neg here]
  | cons g rest ih =>
    rw [addContribution]
    by_cases known : g.doc = doc
    · rw [if_pos known, entryOf?_cons, entryOf?_cons]
      by_cases here : d = doc
      · rw [if_pos (known.trans here.symm), if_pos here, if_pos (known.trans here.symm)]
        rfl
      · have other : g.doc ≠ d := fun same => here (same.symm.trans known)
        rw [if_neg other, if_neg here, if_neg other]
    · rw [if_neg known, entryOf?_cons, entryOf?_cons, ih]
      by_cases first : g.doc = d
      · have other : d ≠ doc := fun same => known (first.trans same)
        rw [if_pos first, if_neg other, if_pos first]
      · rw [if_neg first, if_neg first]

/-- A list credits every document that it holds, by its position there. -/
theorem entryOf?_foldl (once : docs.Nodup) (n : Nat) (fused : List (Fused α)) :
    entryOf? ((docs.zipIdx n).foldl (fun fused (doc, position) =>
      addContribution source doc (contribution k position) fused) fused) d =
        if d ∈ docs then some (credited source d (contribution k (n + docs.idxOf d)) (entryOf? fused d))
        else entryOf? fused d := by
  induction docs generalizing n fused with
  | nil => simp
  | cons doc rest ih =>
    obtain ⟨absent, once'⟩ := List.nodup_cons.mp once
    rw [List.zipIdx_cons, List.foldl_cons, ih once', entryOf?_addContribution]
    by_cases here : d = doc
    · subst here
      rw [if_neg absent, if_pos rfl, if_pos List.mem_cons_self, List.idxOf_cons_self, Nat.add_zero]
    · rw [if_neg here]
      by_cases later : d ∈ rest
      · rw [if_pos later, if_pos (List.mem_cons_of_mem doc later), List.idxOf_cons_ne _ (Ne.symm here)]
        congr 3
        omega
      · rw [if_neg later, if_neg (by simp [here, later])]

theorem entryOf?_addRanking (once : docs.Nodup) (fused : List (Fused α)) :
    entryOf? (addRanking k source docs fused) d =
      if d ∈ docs then some (credited source d (contribution k (docs.idxOf d)) (entryOf? fused d))
      else entryOf? fused d := by
  rw [addRanking, entryOf?_foldl once, Nat.zero_add]

/-- No document is listed twice. -/
theorem nodup_addRanking (once : (fused.map Fused.doc).Nodup) (k : Nat) (source : Ranking)
    (docs : List Nat) : ((addRanking k source docs fused).map Fused.doc).Nodup := by
  unfold addRanking
  generalize docs.zipIdx = positions
  induction positions generalizing fused with
  | nil => exact once
  | cons x rest ih =>
    obtain ⟨doc, position⟩ := x
    rw [List.foldl_cons]
    apply ih
    rw [map_doc_addContribution]
    split
    · exact once
    · next new => exact List.nodup_append.mpr ⟨once, List.nodup_singleton doc, by grind⟩

end

/-! ### Two rankings -/

section

variable {bm25 semantic : List Nat} {k : Nat} {h : Fused α}

/-- What a document gets from the lists that hold it. -/
def fusedScore (k : Nat) (bm25 semantic : List Nat) (d : Nat) : α :=
  if d ∈ bm25 then
    if d ∈ semantic then contribution k (bm25.idxOf d) + contribution k (semantic.idxOf d)
    else contribution k (bm25.idxOf d)
  else contribution k (semantic.idxOf d)

/-- The lists that hold a document. -/
def fusedSources (bm25 semantic : List Nat) (d : Nat) : List Ranking :=
  (if d ∈ bm25 then [.bm25] else []) ++ if d ∈ semantic then [.semantic] else []

theorem fuse_perm (bm25 semantic : List Nat) (k : Nat) :
    (fuse bm25 semantic k : List (Fused α)).Perm
      (addRanking k .semantic semantic (addRanking k .bm25 bm25 [])) :=
  Scalar.ranked_perm _ _ _

theorem nodup_bothRankings (bm25 semantic : List Nat) (k : Nat) :
    ((addRanking k .semantic semantic (addRanking k .bm25 bm25 []) : List (Fused α)).map
      Fused.doc).Nodup := by
  have none : (([] : List (Fused α)).map Fused.doc).Nodup := List.nodup_nil
  exact nodup_addRanking (nodup_addRanking none _ _ _) _ _ _

theorem nodup_fuse (bm25 semantic : List Nat) (k : Nat) :
    ((fuse bm25 semantic k : List (Fused α)).map Fused.doc).Nodup := by
  rw [((fuse_perm bm25 semantic k).map Fused.doc).nodup_iff]
  exact nodup_bothRankings bm25 semantic k

/-- The fused documents are those of the two lists, each with its score and its sources. -/
theorem mem_fuse_iff (once : bm25.Nodup) (once' : semantic.Nodup) :
    h ∈ (fuse bm25 semantic k : List (Fused α)) ↔ (h.doc ∈ bm25 ∨ h.doc ∈ semantic) ∧
      h.score = fusedScore k bm25 semantic h.doc ∧ h.sources = fusedSources bm25 semantic h.doc := by
  obtain ⟨d, score, sources⟩ := h
  rw [(fuse_perm bm25 semantic k).mem_iff, mem_iff_entryOf? (nodup_bothRankings bm25 semantic k),
    entryOf?_addRanking once', entryOf?_addRanking once]
  unfold fusedScore fusedSources
  by_cases first : d ∈ bm25 <;> by_cases second : d ∈ semantic <;>
    simp [first, second, credited, entryOf?, eq_comm]

theorem mem_docs_fuse_iff (once : bm25.Nodup) (once' : semantic.Nodup) (d : Nat) :
    d ∈ (fuse bm25 semantic k : List (Fused α)).map Fused.doc ↔ d ∈ bm25 ∨ d ∈ semantic := by
  rw [List.mem_map]
  constructor
  · rintro ⟨h, member, rfl⟩
    exact ((mem_fuse_iff once once').mp member).1
  · intro listed
    exact ⟨⟨d, fusedScore k bm25 semantic d, fusedSources bm25 semantic d⟩,
      (mem_fuse_iff once once').mpr ⟨listed, rfl, rfl⟩, rfl⟩

end

end CodeAtlas.Search
