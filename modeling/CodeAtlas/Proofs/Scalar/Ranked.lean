import CodeAtlas.Proofs.Text.Order
import CodeAtlas.Scalar
import Mathlib.Data.List.Nodup
import Mathlib.Data.Prod.Lex

/-!
# Ranked items

Where scores are compared as keys of a linear order are, and ties as other keys, items are ranked by pairs
of both: so they are sorted, and if no two items have the same pair, nothing is left of the order in which
they came.
-/

namespace CodeAtlas.Scalar

variable {α β γ κ ν τ : Type} [Scalar α]

/-- Whether an item is ranked no later than another one. -/
def rankedBefore (score : β → α) (before : β → β → Bool) (a b : β) : Bool :=
  if less (score b) (score a) then true
  else if less (score a) (score b) then false
  else before a b

/-- Whether the key of an item is at most that of another one. -/
def keyBefore [LinearOrder κ] (key : β → κ) (a b : β) : Bool :=
  decide (key a ≤ key b)

/-- The order in which the items are ranked is that of a key. -/
def RankedBy [LinearOrder κ] (score : β → α) (before : β → β → Bool) (key : β → κ) (items : List β) :
    Prop :=
  ∀ a ∈ items, ∀ b ∈ items, rankedBefore score before a b = keyBefore key a b

section

variable [LinearOrder κ] {score : β → α} {before : β → β → Bool} {key : β → κ} {items : List β}
  {score' : γ → α} {before' : γ → γ → Bool} {key' : γ → κ} {items' : List γ} {f : β → γ}

theorem ranked_perm (score : β → α) (before : β → β → Bool) (items : List β) :
    (ranked score before items).Perm items :=
  List.mergeSort_perm _ _

theorem RankedBy.ranked_eq (rankedBy : RankedBy score before key items) :
    ranked score before items = items.mergeSort (keyBefore key) := by
  have same : ∀ a ∈ items, ∀ b ∈ items,
      rankedBefore score before a b = keyBefore key (id a) (id b) := rankedBy
  have sorted := List.map_mergeSort same
  rw [List.map_id, List.map_id] at sorted
  exact sorted

theorem keyBefore_trans (key : β → κ) (a b c : β) (ab : keyBefore key a b = true)
    (bc : keyBefore key b c = true) : keyBefore key a c = true :=
  decide_eq_true ((of_decide_eq_true ab).trans (of_decide_eq_true bc))

theorem keyBefore_total (key : β → κ) (a b : β) :
    keyBefore key a b = true ∨ keyBefore key b a = true :=
  (le_total (key a) (key b)).imp decide_eq_true decide_eq_true

/-- Ranked items are in order of their keys. -/
theorem RankedBy.sorted (rankedBy : RankedBy score before key items) :
    (ranked score before items).Pairwise fun a b => key a ≤ key b := by
  rw [rankedBy.ranked_eq]
  have sorted := Text.mergeSort_pairwise (keyBefore_trans key) (keyBefore_total key) items
  exact sorted.imp of_decide_eq_true

/-- Items that are renamed and come in another order are ranked as before, if their keys are the same and
no two have the same one. -/
theorem RankedBy.ranked_map (rankedBy : RankedBy score before key items)
    (rankedBy' : RankedBy score' before' key' items') (perm : items'.Perm (items.map f))
    (keys : ∀ a ∈ items, key' (f a) = key a) (distinct : (items.map key).Nodup) :
    ranked score' before' items' = (ranked score before items).map f := by
  have distinct' : (items'.map key').Nodup := by
    have same : items.map (key' ∘ f) = items.map key := List.map_congr_left keys
    refine (perm.map key').nodup_iff.mpr ?_
    rwa [List.map_map, same]
  have sorted : items'.mergeSort (keyBefore key') = (items.map f).mergeSort (keyBefore key') := by
    apply Text.mergeSort_eq_of_perm (keyBefore_trans key') (keyBefore_total key') perm
    intro a inItems b inItems' order order'
    have same := le_antisymm (of_decide_eq_true order) (of_decide_eq_true order')
    exact List.inj_on_of_nodup_map distinct' inItems inItems' same
  have renamed : ∀ a ∈ items, ∀ b ∈ items,
      keyBefore key a b = keyBefore key' (f a) (f b) := by
    intro a inItems b inItems'
    rw [keyBefore, keyBefore, keys a inItems, keys b inItems']
  rw [rankedBy'.ranked_eq, rankedBy.ranked_eq, sorted, List.map_mergeSort renamed]

/-- Scores that are compared as numbers, the greater first, and then ties, that are compared as well. -/
theorem rankedBy_pair [LinearOrder ν] [LinearOrder τ] {number : β → ν} {tie : β → τ}
    (scores : ∀ a ∈ items, ∀ b ∈ items,
      less (score a) (score b) = decide (number a < number b))
    (ties : ∀ a ∈ items, ∀ b ∈ items, before a b = decide (tie a ≤ tie b)) :
    RankedBy score before (fun a => toLex (OrderDual.toDual (number a), tie a)) items := by
  intro a inItems b inItems'
  rw [rankedBefore, scores b inItems' a inItems, scores a inItems b inItems', ties a inItems b inItems']
  simp only [keyBefore, decide_eq_true_eq, Prod.Lex.toLex_le_toLex, OrderDual.toDual_lt_toDual,
    OrderDual.toDual_inj]
  rcases lt_trichotomy (number a) (number b) with less | same | greater
  · simp [less, less.not_gt, less.ne]
  · simp [same]
  · simp [greater]

end

end CodeAtlas.Scalar
