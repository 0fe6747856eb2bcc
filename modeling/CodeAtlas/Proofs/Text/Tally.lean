import CodeAtlas.Text.Tally
import Mathlib.Data.List.Induction

/-!
# A tally counts

The strings of a tally stand in strict order, so that each has one place, and one more occurrence of
a string changes the count at its place alone. The count of each string is therefore the number of its
occurrences.
-/

namespace CodeAtlas.Text

/-- Strings in order, each with the number of its occurrences in a list. -/
structure Tally.Counts (strings : List String) (counts : List (String × Nat)) : Prop where
  ordered : counts.Pairwise fun c c' => c.1 < c'.1
  members : ∀ s, s ∈ counts.map (·.1) ↔ s ∈ strings
  exact : ∀ c ∈ counts, c.2 = strings.count c.1

namespace Tally

section

variable {s : String} {counts : List (String × Nat)}

theorem add_ordered (ordered : counts.Pairwise fun c c' => c.1 < c'.1) (s : String) :
    (add s counts).Pairwise fun c c' => c.1 < c'.1 := by
  fun_induction add s counts with
  | case1 => exact List.pairwise_singleton _ _
  | case2 => exact List.pairwise_cons.mpr (List.pairwise_cons.mp ordered)
  | case3 t n rest _ less =>
    refine List.pairwise_cons.mpr ⟨?_, ordered⟩
    intro c member
    rcases List.mem_cons.mp member with rfl | later
    · exact less
    · exact String.lt_trans less ((List.pairwise_cons.mp ordered).1 c later)
  | case4 t n rest different notLess ih =>
    obtain ⟨first, others⟩ := List.pairwise_cons.mp ordered
    refine List.pairwise_cons.mpr ⟨?_, ih others⟩
    intro c member
    rcases mem_add.mp (List.mem_map_of_mem (f := (·.1)) member) with same | later
    · rw [same]
      exact String.not_le.mp fun le => different (String.le_antisymm le (String.not_lt.mp notLess))
    · obtain ⟨c', inRest, same⟩ := List.mem_map.mp later
      exact same ▸ first c' inRest

/-- After one more occurrence of a string its count is one more, and the others are as before. -/
theorem mem_of_mem_add (ordered : counts.Pairwise fun c c' => c.1 < c'.1) {c : String × Nat}
    (member : c ∈ add s counts) :
    (c.1 ≠ s ∧ c ∈ counts) ∨ (∃ n, (s, n) ∈ counts ∧ c = (s, n + 1)) ∨
      (s ∉ counts.map (·.1) ∧ c = (s, 1)) := by
  fun_induction add s counts with
  | case1 => exact .inr (.inr ⟨by simp, List.mem_singleton.mp member⟩)
  | case2 n rest =>
    obtain ⟨first, -⟩ := List.pairwise_cons.mp ordered
    rcases List.mem_cons.mp member with rfl | later
    · exact .inr (.inl ⟨n, List.mem_cons_self, rfl⟩)
    · refine .inl ⟨?_, List.mem_cons_of_mem _ later⟩
      rintro rfl
      exact String.lt_irrefl _ (first c later)
  | case3 t n rest _ less =>
    have greater : ∀ c' ∈ (t, n) :: rest, s < c'.1 := by
      intro c' inCounts
      rcases List.mem_cons.mp inCounts with rfl | later
      · exact less
      · exact String.lt_trans less ((List.pairwise_cons.mp ordered).1 c' later)
    rcases List.mem_cons.mp member with rfl | before
    · refine .inr (.inr ⟨?_, rfl⟩)
      intro known
      obtain ⟨c', inCounts, rfl⟩ := List.mem_map.mp known
      exact String.lt_irrefl _ (greater c' inCounts)
    · refine .inl ⟨?_, before⟩
      rintro rfl
      exact String.lt_irrefl _ (greater c before)
  | case4 t n rest different _ ih =>
    rcases List.mem_cons.mp member with rfl | later
    · exact .inl ⟨fun same => different same.symm, List.mem_cons_self⟩
    · rcases ih (List.pairwise_cons.mp ordered).2 later with ⟨other, old⟩ | ⟨n', old, rfl⟩ |
        ⟨isNew, rfl⟩
      · exact .inl ⟨other, List.mem_cons_of_mem _ old⟩
      · exact .inr (.inl ⟨n', List.mem_cons_of_mem _ old, rfl⟩)
      · refine .inr (.inr ⟨?_, rfl⟩)
        rw [List.map_cons, List.mem_cons]
        rintro (same | old)
        · exact different same
        · exact isNew old

/-- One more occurrence of a string is counted. -/
theorem Counts.add {strings : List String} (holds : Counts strings counts) (s : String) :
    Counts (strings ++ [s]) (add s counts) := by
  refine ⟨add_ordered holds.ordered s, ?_, ?_⟩
  · intro t
    rw [mem_add, holds.members, List.mem_append, List.mem_singleton, or_comm]
  · intro c member
    rcases mem_of_mem_add holds.ordered member with ⟨other, old⟩ | ⟨n, old, rfl⟩ | ⟨isNew, rfl⟩
    · have unchanged : [s].count c.1 = 0 := List.count_eq_zero.mpr (by simpa using other)
      rw [holds.exact c old, List.count_append, unchanged, Nat.add_zero]
    · have before : n = strings.count s := holds.exact (s, n) old
      simp [before]
    · rw [holds.members] at isNew
      simp [List.count_eq_zero.mpr isNew]

end

end Tally

/-- A tally has each string of a list with the number of its occurrences. -/
theorem tally_counts (strings : List String) : Tally.Counts strings (tally strings) := by
  induction strings using List.reverseRecOn with
  | nil => exact ⟨List.Pairwise.nil, by simp [tally], by simp [tally]⟩
  | append_singleton before s ih =>
    rw [tally, List.foldl_append]
    exact ih.add s

end CodeAtlas.Text
