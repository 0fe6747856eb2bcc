import CodeAtlas.Source.Resolution

/-!
# Imports mean files that are present

Whatever the language, an import means one of the files among which it is looked for, or none.
-/

namespace CodeAtlas.Source

theorem present_of_importedFile {present : String → Bool} {importer module_ path : String}
    (h : importedFile? present importer module_ = some path) : present path = true := by
  unfold importedFile? at h
  split at h
  · split at h
    · unfold scriptFile? at h
      split at h
      · obtain ⟨base, -, found⟩ := Option.bind_eq_some_iff.mp h
        exact present_of_firstPresent found
      · simp at h
    · unfold pythonFile? at h
      extract_lets chars dots rest dir at h
      clear_value dots
      split at h
      · obtain ⟨base, -, found⟩ := Option.bind_eq_some_iff.mp h
        extract_lets at found
        split at found
        · simp at found
        · exact present_of_firstPresent found
      · split at h
        · simp at h
        · split at h
          · next found =>
            obtain rfl := Option.some.inj h
            exact present_of_firstPresent found
          · split at h
            · simp at h
            · exact present_of_firstPresent h
  · simp at h

end CodeAtlas.Source
