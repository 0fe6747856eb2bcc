import Mathlib.Data.List.Nodup
import Mathlib.Data.List.Perm.Subperm
import Mathlib.Data.List.Sigma

/-!
# Positions in another order

What comes in another order is the same under other positions.
-/

namespace CodeAtlas

section

variable {α : Type} {xs ys : List α} {σ : Nat → Nat}

/-- The same items in another order are found at other positions. -/
theorem exists_renaming (perm : xs.Perm ys) :
    ∃ σ : Nat → Nat, σ.Injective ∧ ∀ i, ys[σ i]? = xs[i]? := by
  classical
  have lengths := perm.length_eq
  refine ⟨fun i => if inside : i < xs.length then (perm.idxBij ⟨i, inside⟩).val else i, ?_, ?_⟩
  · intro i j same
    dsimp only at same
    split_ifs at same with insideI insideJ insideJ
    · exact Fin.mk.inj_iff.mp (perm.idxBij_injective (Fin.ext same))
    · have bound := (perm.idxBij ⟨i, insideI⟩).isLt
      omega
    · have bound := (perm.idxBij ⟨j, insideJ⟩).isLt
      omega
    · exact same
  · intro i
    dsimp only
    split_ifs with inside
    · rw [List.getElem?_eq_getElem inside, List.getElem?_eq_getElem (perm.idxBij ⟨i, inside⟩).isLt]
      exact congrArg some (perm.getElem_idxBij_eq_getElem ⟨i, inside⟩)
    · rw [List.getElem?_eq_none (by omega), List.getElem?_eq_none (by omega)]

theorem zipIdx_renamed (injective : σ.Injective) (moved : ∀ i, ys[σ i]? = xs[i]?)
    (lengths : xs.length = ys.length) :
    ys.zipIdx.Perm (xs.zipIdx.map fun x => (x.1, σ x.2)) := by
  have once : (xs.zipIdx.map fun x => (x.1, σ x.2)).Nodup := by
    apply List.Nodup.of_map Prod.snd
    have positions := (List.nodup_zipIdx_map_snd xs).map injective
    rw [List.map_map] at positions ⊢
    exact positions
  have subset : (xs.zipIdx.map fun x => (x.1, σ x.2)) ⊆ ys.zipIdx := by
    intro y member
    obtain ⟨x, listed, rfl⟩ := List.mem_map.mp member
    rw [List.mem_zipIdx_iff_getElem?, moved]
    exact List.mem_zipIdx_iff_getElem?.mp listed
  refine ((List.subperm_of_subset once subset).perm_of_length_le ?_).symm
  simp [lengths]

end

end CodeAtlas
