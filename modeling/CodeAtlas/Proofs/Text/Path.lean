import CodeAtlas.Text.Path
import Mathlib.Data.List.TakeWhile

/-!
# Paths as lists of segments

A path is told by its segments: two paths with a slash between them have the segments of both, segments
without slashes that are joined are read back, and the directory of a path is what is left without the
last segment.
-/

namespace CodeAtlas.Text

/-! ### Pieces between separators -/

section

variable {sep : Char} {a b : List Char}

theorem splitAt_append (sep : Char) (a b : List Char) :
    splitAt sep (a ++ sep :: b) = splitAt sep a ++ splitAt sep b := by
  induction a with
  | nil => simp [splitAt]
  | cons c rest ih =>
    rw [List.cons_append, splitAt, splitAt, ih]
    by_cases here : c = sep
    · rw [if_pos here, if_pos here, List.cons_append]
    · rw [if_neg here, if_neg here]
      cases pieces : splitAt sep rest with
      | nil => exact absurd pieces (splitAt_ne_nil sep rest)
      | cons piece more => rfl

theorem splitAt_eq_singleton (absent : sep ∉ a) : splitAt sep a = [a] := by
  induction a with
  | nil => rfl
  | cons c rest ih =>
    rw [List.mem_cons, not_or] at absent
    rw [splitAt, if_neg (Ne.symm absent.1), ih absent.2]

theorem notMem_of_mem_splitAt : ∀ piece ∈ splitAt sep a, sep ∉ piece := by
  induction a with
  | nil => simp [splitAt]
  | cons c rest ih =>
    rw [splitAt]
    split
    · exact List.forall_mem_cons.mpr ⟨List.not_mem_nil, ih⟩
    · next other =>
      cases pieces : splitAt sep rest with
      | nil => exact absurd pieces (splitAt_ne_nil sep rest)
      | cons piece more =>
        obtain ⟨first, others⟩ := List.forall_mem_cons.mp (pieces ▸ ih)
        refine List.forall_mem_cons.mpr ⟨?_, others⟩
        rw [List.mem_cons, not_or]
        exact ⟨Ne.symm other, first⟩

theorem exists_last_of_mem (member : sep ∈ a) : ∃ before after, a = before ++ sep :: after ∧ sep ∉ after := by
  obtain ⟨after, before, reversed, absent⟩ :=
    List.eq_append_cons_of_mem (List.mem_reverse.mpr member)
  refine ⟨before.reverse, after.reverse, ?_, mt List.mem_reverse.mp absent⟩
  rw [← List.reverse_reverse a, reversed]
  simp

theorem takeWhile_append_sep (a b : List Char) :
    (a ++ sep :: b).takeWhile (· ≠ sep) = a.takeWhile (· ≠ sep) := by
  induction a with
  | nil => simp
  | cons c rest ih => simp only [List.cons_append, List.takeWhile_cons, ih]

theorem dropWhile_append_sep (absent : sep ∉ a) (b : List Char) :
    (a ++ sep :: b).dropWhile (· ≠ sep) = sep :: b := by
  induction a with
  | nil => simp
  | cons c rest ih =>
    rw [List.mem_cons, not_or] at absent
    rw [List.cons_append, List.dropWhile_cons_of_pos (by simpa using Ne.symm absent.1), ih absent.2]

/-- What follows the last separator does not depend on what stands in front of a separator. -/
theorem afterLast_append (a b : List Char) : afterLast sep (a ++ sep :: b) = afterLast sep b := by
  rw [afterLast, afterLast, List.reverse_append, List.reverse_cons, List.append_assoc,
    List.singleton_append, takeWhile_append_sep]

theorem beforeLast?_append (absent : sep ∉ b) : beforeLast? sep (a ++ sep :: b) = some a := by
  rw [beforeLast?, List.reverse_append, List.reverse_cons, List.append_assoc,
    List.singleton_append, dropWhile_append_sep (mt List.mem_reverse.mp absent)]
  simp

theorem beforeLast?_eq_none (absent : sep ∉ a) : beforeLast? sep a = none := by
  have all : a.reverse.dropWhile (· ≠ sep) = [] := by
    rw [List.dropWhile_eq_nil_iff]
    intro c member
    simpa using fun same : c = sep => absent (same ▸ List.mem_reverse.mp member)
  rw [beforeLast?, all]

end

/-! ### Segments -/

section

variable {path : String} {parts others : List String}

theorem segments_ne_nil (path : String) : segments path ≠ [] := by
  simpa [segments] using splitAt_ne_nil '/' path.toList

theorem slash_notMem_segments : ∀ s ∈ segments path, '/' ∉ s.toList := by
  intro s member
  obtain ⟨piece, among, rfl⟩ := List.mem_map.mp member
  rw [String.toList_ofList]
  exact notMem_of_mem_splitAt piece among

theorem segments_append (path rest : String) :
    segments (path ++ "/" ++ rest) = segments path ++ segments rest := by
  have characters : (path ++ "/" ++ rest).toList = path.toList ++ '/' :: rest.toList := by
    simp
  rw [segments, characters, splitAt_append, List.map_append]
  rfl

theorem segments_eq_singleton (absent : '/' ∉ path.toList) : segments path = [path] := by
  rw [segments, splitAt_eq_singleton absent, List.map_singleton, String.ofList_toList]

theorem joinSegments_cons (s : String) (nonempty : parts ≠ []) :
    joinSegments (s :: parts) = s ++ "/" ++ joinSegments parts :=
  String.intercalate_cons_of_ne_nil nonempty

theorem joinSegments_append (nonempty : parts ≠ []) (nonempty' : others ≠ []) :
    joinSegments (parts ++ others) = joinSegments parts ++ "/" ++ joinSegments others := by
  induction parts with
  | nil => exact absurd rfl nonempty
  | cons s rest ih =>
    by_cases last : rest = []
    · rw [last]
      exact joinSegments_cons s nonempty'
    · rw [List.cons_append, joinSegments_cons s (by simp [last]), ih last, joinSegments_cons s last]
      simp only [String.append_assoc]

/-- Segments that are joined are read back. -/
theorem segments_joinSegments (nonempty : parts ≠ []) (pieces : ∀ s ∈ parts, '/' ∉ s.toList) :
    segments (joinSegments parts) = parts := by
  induction parts with
  | nil => exact absurd rfl nonempty
  | cons s rest ih =>
    obtain ⟨here, later⟩ := List.forall_mem_cons.mp pieces
    by_cases last : rest = []
    · rw [last]
      exact segments_eq_singleton here
    · rw [joinSegments_cons s last, segments_append, segments_eq_singleton here, ih last later]
      rfl

/-- The directory of a path is what is left without its last segment. -/
theorem folderOf_eq (path : String) : folderOf path = joinSegments (segments path).dropLast := by
  by_cases slash : '/' ∈ path.toList
  · obtain ⟨before, after, whole, absent⟩ := exists_last_of_mem slash
    have path_eq : path = String.ofList before ++ "/" ++ String.ofList after := by
      rw [← String.toList_inj, whole]
      simp
    have name : segments (String.ofList after) = [String.ofList after] :=
      segments_eq_singleton (by rwa [String.toList_ofList])
    rw [folderOf, whole, beforeLast?_append absent, path_eq, segments_append, name,
      List.dropLast_concat, joinSegments_segments]
    rfl
  · rw [folderOf, beforeLast?_eq_none slash, segments_eq_singleton slash]
    rfl

/-- The segments of a directory that are not empty are those of the path without the last one. -/
theorem filter_segments_folderOf (path : String) :
    (segments (folderOf path)).filter (· ≠ "") = (segments path).dropLast.filter (· ≠ "") := by
  rw [folderOf_eq]
  by_cases top : (segments path).dropLast = []
  · rw [top]
    rfl
  · rw [segments_joinSegments top fun s member =>
      slash_notMem_segments s (List.dropLast_subset _ member)]

end

end CodeAtlas.Text
