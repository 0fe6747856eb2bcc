import CodeAtlas.Proofs.Scalar.Exact
import CodeAtlas.Proofs.Search.Fusion

/-!
# Fusion respects what both rankings prefer

In exact arithmetic a fused score is the sum of what a document gets from either list, which does not
depend on the order of the lists. What stands higher in a list gets more from it, and what is not listed
gets nothing; so a document that one list prefers to another one, and no list the other way round, has the
greater score and comes first.
-/

namespace CodeAtlas.Search

/-- What a document gets from a list, in exact arithmetic: nothing where it is not listed, and else the
inverse of its rank, counted from one, and a constant. -/
noncomputable def gain (k : Nat) (docs : List Nat) (doc : Nat) : ℝ :=
  if doc ∈ docs then 1 / ((k : ℝ) + ((docs.idxOf doc + 1 : Nat) : ℝ)) else 0

/-- A list ranks a document no worse than another one; what is not listed is worst. -/
def NoWorse (docs : List Nat) (a b : Nat) : Prop :=
  b ∈ docs → a ∈ docs ∧ docs.idxOf a ≤ docs.idxOf b

/-- A list ranks a document better than another one. -/
def Better (docs : List Nat) (a b : Nat) : Prop :=
  a ∈ docs ∧ (b ∈ docs → docs.idxOf a < docs.idxOf b)

instance (docs : List Nat) (a b : Nat) : Decidable (NoWorse docs a b) :=
  inferInstanceAs (Decidable (_ → _))

instance (docs : List Nat) (a b : Nat) : Decidable (Better docs a b) :=
  inferInstanceAs (Decidable (_ ∧ _))

section

variable {bm25 semantic docs : List Nat} {k a b doc : Nat}

theorem contribution_real (k position : Nat) :
    (contribution k position : ℝ) = 1 / ((k : ℝ) + ((position + 1 : Nat) : ℝ)) := by
  show ((1 : Nat) : ℝ) / ((k : ℝ) + (position : ℝ) + ((1 : Nat) : ℝ)) = _
  rw [Nat.cast_one, Nat.cast_add, Nat.cast_one, add_assoc]

theorem gain_of_mem (listed : doc ∈ docs) : gain k docs doc = contribution k (docs.idxOf doc) := by
  rw [gain, if_pos listed, contribution_real]

theorem gain_of_notMem (absent : doc ∉ docs) : gain k docs doc = 0 :=
  if_neg absent

theorem gain_nonneg (k : Nat) (docs : List Nat) (doc : Nat) : 0 ≤ gain k docs doc := by
  unfold gain
  split
  · positivity
  · exact le_rfl

theorem NoWorse.gain_le (noWorse : NoWorse docs a b) (k : Nat) : gain k docs b ≤ gain k docs a := by
  by_cases listed : b ∈ docs
  · obtain ⟨listed', order⟩ := noWorse listed
    rw [gain, gain, if_pos listed, if_pos listed']
    apply one_div_le_one_div_of_le (by positivity)
    gcongr
  · rw [gain_of_notMem listed]
    exact gain_nonneg k docs a

theorem Better.gain_lt (better : Better docs a b) (k : Nat) : gain k docs b < gain k docs a := by
  by_cases listed : b ∈ docs
  · rw [gain, gain, if_pos listed, if_pos better.1]
    apply one_div_lt_one_div_of_lt (by positivity)
    have order := better.2 listed
    gcongr
  · rw [gain_of_notMem listed, gain, if_pos better.1]
    positivity

/-- A fused score is the sum of what the lists give. -/
theorem fusedScore_real (listed : doc ∈ bm25 ∨ doc ∈ semantic) :
    fusedScore k bm25 semantic doc = gain k bm25 doc + gain k semantic doc := by
  unfold fusedScore
  split
  · next first =>
    rw [gain_of_mem first]
    split
    · next second =>
      rw [gain_of_mem second]
    · next absent => rw [gain_of_notMem absent, add_zero]
  · next absent => rw [gain_of_notMem absent, gain_of_mem (listed.resolve_left absent), zero_add]

theorem mem_scores_fuse_iff (once : bm25.Nodup) (once' : semantic.Nodup) {score : ℝ} :
    (doc, score) ∈ (fuse bm25 semantic k : List (Fused ℝ)).map (fun x => (x.doc, x.score)) ↔
      (doc ∈ bm25 ∨ doc ∈ semantic) ∧ score = gain k bm25 doc + gain k semantic doc := by
  rw [List.mem_map]
  constructor
  · rintro ⟨x, member, same⟩
    obtain ⟨rfl, rfl⟩ := Prod.mk.inj same
    obtain ⟨listed, scored, -⟩ := (mem_fuse_iff once once').mp member
    exact ⟨listed, scored.trans (fusedScore_real listed)⟩
  · rintro ⟨listed, rfl⟩
    refine ⟨⟨doc, _, fusedSources bm25 semantic doc⟩, (mem_fuse_iff once once').mpr ⟨listed, ?_, rfl⟩, rfl⟩
    exact (fusedScore_real listed).symm

/-- Which of the lists is the first one makes no difference to the scores. -/
theorem scores_fuse_swap (once : bm25.Nodup) (once' : semantic.Nodup) (k : Nat) :
    ((fuse bm25 semantic k : List (Fused ℝ)).map fun x => (x.doc, x.score)).Perm
      ((fuse semantic bm25 k : List (Fused ℝ)).map fun x => (x.doc, x.score)) := by
  have each : ∀ ds es, ((fuse ds es k : List (Fused ℝ)).map fun x => (x.doc, x.score)).Nodup := by
    intro ds es
    apply List.Nodup.of_map Prod.fst
    rw [List.map_map]
    exact nodup_fuse ds es k
  rw [List.perm_ext_iff_of_nodup (each _ _) (each _ _)]
  rintro ⟨d, score⟩
  rw [mem_scores_fuse_iff once once', mem_scores_fuse_iff once' once, or_comm, add_comm]

theorem fuse_ordered (bm25 semantic : List Nat) (k : Nat) :
    (fuse bm25 semantic k : List (Fused ℝ)).Pairwise fun x y => y.score ≤ x.score := by
  have ranked : Scalar.RankedBy (Fused.score (α := ℝ)) (fun _ _ => true)
      (fun x => toLex (OrderDual.toDual x.score, ()))
      (addRanking k .semantic semantic (addRanking k .bm25 bm25 [])) := by
    apply Scalar.rankedBy_pair
    · intro x _ y _
      rfl
    · intro x _ y _
      rfl
  refine ranked.sorted.imp ?_
  intro x y order
  rcases Prod.Lex.toLex_le_toLex.mp order with less | ⟨same, -⟩
  · exact (OrderDual.toDual_lt_toDual.mp less).le
  · exact (OrderDual.toDual_inj.mp same).ge

/-- Of two entries in order of their scores the greater one comes first. -/
theorem sublist_of_score_lt {fused : List (Fused ℝ)} {x y : Fused ℝ}
    (ordered : fused.Pairwise fun x y => y.score ≤ x.score) (member : x ∈ fused) (member' : y ∈ fused)
    (less : y.score < x.score) : [x, y].Sublist fused := by
  induction fused with
  | nil => cases member
  | cons z rest ih =>
    obtain ⟨first, ordered'⟩ := List.pairwise_cons.mp ordered
    rcases List.mem_cons.mp member with rfl | later
    · have behind : y ∈ rest := (List.mem_cons.mp member').resolve_left fun same => by
        rw [same] at less
        exact lt_irrefl _ less
      exact (List.singleton_sublist.mpr behind).cons_cons x
    · rcases List.mem_cons.mp member' with rfl | later'
      · exact absurd (first x later) less.not_ge
      · exact (ih ordered' later later').cons z

/-- What two rankings fuse to in exact arithmetic. -/
structure FusesExactly (bm25 semantic : List Nat) (k : Nat) (fused : List (Fused ℝ)) : Prop where
  once : (fused.map Fused.doc).Nodup
  documents : ∀ d, d ∈ fused.map Fused.doc ↔ d ∈ bm25 ∨ d ∈ semantic
  scores : ∀ x ∈ fused, x.score = gain k bm25 x.doc + gain k semantic x.doc
  sources : ∀ x ∈ fused, x.sources =
    (if x.doc ∈ bm25 then [.bm25] else []) ++ if x.doc ∈ semantic then [.semantic] else []
  ordered : fused.Pairwise fun x y => y.score ≤ x.score
  swapped : (fused.map fun x => (x.doc, x.score)).Perm
    ((fuse semantic bm25 k : List (Fused ℝ)).map fun x => (x.doc, x.score))
  unanimous : ∀ a b, NoWorse bm25 a b → NoWorse semantic a b → Better bm25 a b ∨ Better semantic a b →
    gain k bm25 b + gain k semantic b < gain k bm25 a + gain k semantic a ∧
      (∃ x ∈ fused, x.doc = a) ∧
      ∀ x ∈ fused, ∀ y ∈ fused, x.doc = a → y.doc = b → [x, y].Sublist fused

theorem fuse_exactly (once : bm25.Nodup) (once' : semantic.Nodup) (k : Nat) :
    FusesExactly bm25 semantic k (fuse bm25 semantic k) := by
  have scores : ∀ x ∈ (fuse bm25 semantic k : List (Fused ℝ)),
      x.score = gain k bm25 x.doc + gain k semantic x.doc := by
    intro x member
    obtain ⟨listed, score, -⟩ := (mem_fuse_iff once once').mp member
    rw [score, fusedScore_real listed]
  refine ⟨nodup_fuse bm25 semantic k, mem_docs_fuse_iff once once', scores, ?_,
    fuse_ordered bm25 semantic k, scores_fuse_swap once once' k, ?_⟩
  · intro x member
    exact ((mem_fuse_iff once once').mp member).2.2
  · intro a b noWorse noWorse' better
    have more : gain k bm25 b + gain k semantic b < gain k bm25 a + gain k semantic a := by
      rcases better with first | second
      · exact add_lt_add_of_lt_of_le (first.gain_lt k) (noWorse'.gain_le k)
      · exact add_lt_add_of_le_of_lt (noWorse.gain_le k) (second.gain_lt k)
    have listed : a ∈ bm25 ∨ a ∈ semantic := better.imp And.left And.left
    refine ⟨more, List.mem_map.mp ((mem_docs_fuse_iff once once' a).mpr listed), ?_⟩
    rintro x member y member' rfl rfl
    apply sublist_of_score_lt (fuse_ordered bm25 semantic k) member member'
    rwa [scores x member, scores y member']

end

end CodeAtlas.Search
