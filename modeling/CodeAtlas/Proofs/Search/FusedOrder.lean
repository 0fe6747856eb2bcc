import CodeAtlas.Proofs.Double.Sums
import CodeAtlas.Proofs.Search.Preference
import CodeAtlas.Proofs.Search.Selection

/-!
# Searches in order

Fused scores are numbers, also after all roundings, and of numbers one is less than another one or not. So
the results of every search are in order, in doubles as in exact arithmetic.
-/

namespace CodeAtlas.Search

theorem contribution_atLeast (k position : Nat) : Double.AtLeast (contribution k position) 0 := by
  have start := (Double.ofNat_nonneg k).add_both (Double.ofNat_nonneg position)
  exact Double.AtLeast.div Double.scalar_one_denotes (start.1.add_both Double.scalar_one_denotes.atLeast).2

theorem fusedScore_atLeast (k : Nat) (bm25 semantic : List Nat) (d : Nat) :
    Double.AtLeast (fusedScore k bm25 semantic d) 0 := by
  unfold fusedScore
  split
  · split
    · exact ((contribution_atLeast k _).add_both (contribution_atLeast k _)).1
    · exact contribution_atLeast k _
  · exact contribution_atLeast k _

namespace Engine

theorem search_exact_in_order (e : Engine) (c : Constants ℝ) (query : String) (limit : Nat) :
    e.SearchesInOrder c query limit :=
  searchesInOrder_of_numbers id fun _ _ _ _ => rfl

theorem search_in_order (e : Engine) (c : Constants Float) (query : String) (limit : Nat) :
    e.SearchesInOrder c query limit := by
  have number : ∀ h ∈ e.fusedHits c query limit, Double.Number h.score := by
    intro h member
    have scored := (mem_fuse_iff (e.nodup_termHits c query _) (e.nodup_sharedHits query _)).mp member
    rw [scored.2.1]
    exact (fusedScore_atLeast _ _ _ _).number
  apply searchesInOrder_of_numbers Double.rankOf
  intro a member b member'
  exact decide_eq_decide.mpr (Double.lt_iff_rankOf (number a member) (number b member'))

end Engine

/-- What two rankings fuse to respects what both of them prefer, and a search is in the order of it. -/
theorem fuse_respects_preference :
    (∀ (bm25 semantic : List Nat) (k : Nat), bm25.Nodup → semantic.Nodup →
      FusesExactly bm25 semantic k (fuse bm25 semantic k)) ∧
    (∀ (e : Engine) (c : Constants ℝ) (query : String) (limit : Nat), e.SearchesInOrder c query limit) ∧
    ∀ (e : Engine) (c : Constants Float) (query : String) (limit : Nat), e.SearchesInOrder c query limit :=
  ⟨fun _ _ k once once' => fuse_exactly once once' k, Engine.search_exact_in_order, Engine.search_in_order⟩

/-- What one list has behind another document and the other list in front counts for more than what only
the second list has, and behind it. -/
theorem fuse_respects_preference_pair :
    [1, 2].Nodup ∧ [2, 3].Nodup ∧ FusesExactly [1, 2] [2, 3] 60 (fuse [1, 2] [2, 3] 60) ∧
      gain 60 [1, 2] 3 + gain 60 [2, 3] 3 < gain 60 [1, 2] 2 + gain 60 [2, 3] 2 := by
  have once : [1, 2].Nodup := by decide
  have once' : [2, 3].Nodup := by decide
  have fuses := fuse_respects_preference.1 [1, 2] [2, 3] 60 once once'
  exact ⟨once, once', fuses, (fuses.unanimous 2 3 (by decide) (by decide) (by decide)).1⟩

end CodeAtlas.Search
