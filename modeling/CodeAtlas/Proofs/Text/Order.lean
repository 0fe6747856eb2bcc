import Mathlib.Data.List.Perm.Basic
import Mathlib.Order.Lattice

/-!
# Sorting

What is sorted by a text of each item is in order of the texts. Of texts that are sorted nothing is
left of the order in which they came. An order that goes by a key first sorts by that key, whatever
decides between items of one key.
-/

namespace CodeAtlas.Text

section

variable {α : Type}

theorem mergeSort_pairwise {before : α → α → Bool}
    (trans : ∀ a b c, before a b = true → before b c = true → before a c = true)
    (total : ∀ a b, before a b = true ∨ before b a = true) (items : List α) :
    (items.mergeSort before).Pairwise fun a b => before a b = true := by
  apply List.pairwise_mergeSort trans
  intro a b
  exact (Bool.or_eq_true _ _).mpr (total a b)

/-- Sorting leaves nothing of the order in which items came if no two of them may change places. -/
theorem mergeSort_eq_of_perm {before : α → α → Bool} {items items' : List α}
    (trans : ∀ a b c, before a b = true → before b c = true → before a c = true)
    (total : ∀ a b, before a b = true ∨ before b a = true) (perm : items.Perm items')
    (antisymm : ∀ a ∈ items, ∀ b ∈ items, before a b = true → before b a = true → a = b) :
    items.mergeSort before = items'.mergeSort before := by
  have sorted := mergeSort_pairwise trans total
  have same : (items.mergeSort before).Perm (items'.mergeSort before) :=
    (List.mergeSort_perm _ _).trans (perm.trans (List.mergeSort_perm _ _).symm)
  refine same.eq_of_pairwise ?_ (sorted items) (sorted items')
  intro a b inside inside'
  exact antisymm a (List.mem_mergeSort.mp inside) b
    (perm.mem_iff.mpr (List.mem_mergeSort.mp inside'))

/-- Whether the text of an item comes before that of another one or is the same. -/
def textBefore (text : α → String) (a b : α) : Bool :=
  decide (text a ≤ text b)

theorem textBefore_trans (text : α → String) (a b c : α) (ab : textBefore text a b = true)
    (bc : textBefore text b c = true) : textBefore text a c = true :=
  decide_eq_true (String.le_trans (of_decide_eq_true ab) (of_decide_eq_true bc))

theorem textBefore_total (text : α → String) (a b : α) :
    textBefore text a b = true ∨ textBefore text b a = true :=
  (String.le_total (text a) (text b)).imp decide_eq_true decide_eq_true

theorem mergeSort_ordered (text : α → String) (items : List α) :
    (items.mergeSort (textBefore text)).Pairwise fun a b => text a ≤ text b := by
  have sorted := mergeSort_pairwise (textBefore_trans text) (textBefore_total text) items
  exact sorted.imp of_decide_eq_true

theorem map_mergeSort (text : α → String) (items : List α) :
    (items.mergeSort (textBefore text)).map text = (items.map text).mergeSort (textBefore id) := by
  apply List.map_mergeSort
  intro a _ b _
  rfl

theorem mergeSort_perm_eq {texts texts' : List String} (perm : texts.Perm texts') :
    texts.mergeSort (textBefore id) = texts'.mergeSort (textBefore id) := by
  apply mergeSort_eq_of_perm (textBefore_trans id) (textBefore_total id) perm
  intro a _ b _ before after
  exact String.le_antisymm (of_decide_eq_true before) (of_decide_eq_true after)

end

section

variable {α κ : Type} [LinearOrder κ] {key : α → κ} {tie before : α → α → Bool}

/-- What is sorted by a key alone is in order of the keys. -/
theorem mergeSort_keys (key : α → κ) (items : List α) :
    (items.mergeSort fun a b => key a ≤ key b).Pairwise fun a b => key a ≤ key b := by
  have trans (a b c : α) (ab : decide (key a ≤ key b) = true)
      (bc : decide (key b ≤ key c) = true) : decide (key a ≤ key c) = true :=
    decide_eq_true ((of_decide_eq_true ab).trans (of_decide_eq_true bc))
  have total (a b : α) : decide (key a ≤ key b) = true ∨ decide (key b ≤ key a) = true :=
    (le_total (key a) (key b)).imp decide_eq_true decide_eq_true
  exact (mergeSort_pairwise trans total items).imp of_decide_eq_true

/-- Whether an order goes by a key and, between items of one key, by a second order. -/
def GoesBy (key : α → κ) (tie before : α → α → Bool) : Prop :=
  ∀ a b, before a b = if key a < key b then true else if key b < key a then false else tie a b

theorem GoesBy.before_iff (goes : GoesBy key tie before) {a b : α} :
    before a b = true ↔ key a < key b ∨ key a = key b ∧ tie a b = true := by
  rw [goes]
  split_ifs with less greater
  · exact iff_of_true rfl (.inl less)
  · refine iff_of_false id ?_
    rintro (less' | ⟨same, -⟩)
    · exact less less'
    · exact greater.ne' same
  · have same : key a = key b := le_antisymm (not_lt.mp greater) (not_lt.mp less)
    exact ⟨fun order => .inr ⟨same, order⟩, fun h => (h.resolve_left less).2⟩

theorem GoesBy.trans (goes : GoesBy key tie before)
    (tie_trans : ∀ a b c, tie a b = true → tie b c = true → tie a c = true) (a b c : α)
    (ab : before a b = true) (bc : before b c = true) : before a c = true := by
  rw [goes.before_iff] at ab bc ⊢
  rcases ab with less | ⟨same, order⟩
  · rcases bc with less' | ⟨same', -⟩
    · exact .inl (less.trans less')
    · exact .inl (less.trans_eq same')
  · rcases bc with less' | ⟨same', order'⟩
    · exact .inl (same.trans_lt less')
    · exact .inr ⟨same.trans same', tie_trans a b c order order'⟩

theorem GoesBy.total (goes : GoesBy key tie before)
    (tie_total : ∀ a b, tie a b = true ∨ tie b a = true) (a b : α) :
    before a b = true ∨ before b a = true := by
  rw [goes.before_iff, goes.before_iff]
  rcases lt_trichotomy (key a) (key b) with less | same | greater
  · exact .inl (.inl less)
  · rcases tie_total a b with order | order
    · exact .inl (.inr ⟨same, order⟩)
    · exact .inr (.inr ⟨same.symm, order⟩)
  · exact .inr (.inl greater)

/-- Two items that each come before the other one have one key, and the second order ties them. -/
theorem GoesBy.tied (goes : GoesBy key tie before) {a b : α} (ab : before a b = true)
    (ba : before b a = true) : key a = key b ∧ tie a b = true ∧ tie b a = true := by
  rw [goes.before_iff] at ab ba
  rcases ab with less | ⟨same, order⟩
  · rcases ba with greater | ⟨same, -⟩
    · exact absurd less greater.not_gt
    · exact absurd same less.ne'
  · rcases ba with less | ⟨-, order'⟩
    · exact absurd same less.ne'
    · exact ⟨same, order, order'⟩

/-- What is sorted by such an order is in order of the keys. -/
theorem GoesBy.sorted (goes : GoesBy key tie before)
    (tie_trans : ∀ a b c, tie a b = true → tie b c = true → tie a c = true)
    (tie_total : ∀ a b, tie a b = true ∨ tie b a = true) (items : List α) :
    (items.mergeSort before).Pairwise fun a b => key a < key b ∨ key a = key b ∧ tie a b = true := by
  have sorted := mergeSort_pairwise (goes.trans tie_trans) (goes.total tie_total) items
  exact sorted.imp goes.before_iff.mp

theorem GoesBy.sorted_keys (goes : GoesBy key tie before)
    (tie_trans : ∀ a b c, tie a b = true → tie b c = true → tie a c = true)
    (tie_total : ∀ a b, tie a b = true ∨ tie b a = true) (items : List α) :
    (items.mergeSort before).Pairwise fun a b => key a ≤ key b := by
  refine (goes.sorted tie_trans tie_total items).imp ?_
  rintro a b (less | ⟨same, -⟩)
  · exact less.le
  · exact same.le

end

end CodeAtlas.Text
