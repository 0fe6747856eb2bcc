import CodeAtlas.Proofs.Source.RelativePath
import CodeAtlas.Proofs.Source.Resolution

/-!
# What a script imports

A relative specifier and the directory of the importing file make a path. If it leads above the root
the import means nothing. Else the nine endings are tried in turn behind its normal form, so that ways of
writing the same path mean the same file.
-/

namespace CodeAtlas.Source

/-- The segments of the directory of a file. -/
def folder (importer : String) : List String :=
  (Text.segments importer).dropLast

/-- The specifier starts from the directory of the importing file or from the one above. -/
def RelativeSpecifier (specifier : String) : Prop :=
  specifier.startsWith "./" = true ∨ specifier.startsWith "../" = true

instance (specifier : String) : Decidable (RelativeSpecifier specifier) :=
  inferInstanceAs (Decidable (_ ∨ _))

section

variable {present : String → Bool} {importer specifier : String} {language : Language}

theorem importedFile?_script (script : Language.ofPath? importer = some language)
    (braces : language.usesBraces = true) (relative : RelativeSpecifier specifier) :
    importedFile? present importer specifier =
      (walk ((folder importer).filter (· ≠ "")).reverse (Text.segments specifier)).bind fun parts =>
        firstPresent present scriptEndings (Text.joinSegments parts.reverse) := by
  have starts : (specifier.startsWith "./" || specifier.startsWith "../") = true := by
    rwa [Bool.or_eq_true]
  have joined : joinFrom (Text.folderOf importer) specifier =
      (walk ((folder importer).filter (· ≠ "")).reverse (Text.segments specifier)).map fun parts =>
        Text.joinSegments parts.reverse := by
    rw [joinFrom, Text.filter_segments_folderOf, folder]
  unfold importedFile?
  rw [script]
  dsimp only
  rw [if_pos braces, scriptFile?, if_pos starts, joined, Option.bind_map]
  rfl

/-- What the relative specifiers of a script mean: a file that is present; the same one however the path
is written; none above the root; and else the first file that is present, of those whose names are the
normal form of the path with one of the endings. -/
structure ImportsByPath (present : String → Bool) (importer : String) : Prop where
  among : ∀ specifier path, RelativeSpecifier specifier →
    importedFile? present importer specifier = some path → present path = true
  rewritten : ∀ specifier specifier', RelativeSpecifier specifier → RelativeSpecifier specifier' →
    Shortens (Text.segments specifier) (Text.segments specifier') →
      importedFile? present importer specifier = importedFile? present importer specifier'
  outside : ∀ specifier, RelativeSpecifier specifier →
    Climbs (folder importer).length (Text.segments specifier) →
      importedFile? present importer specifier = none
  inside : ∀ specifier, RelativeSpecifier specifier →
    ¬ Climbs (folder importer).length (Text.segments specifier) →
      ∃ parts, Normalizes (folder importer ++ Text.segments specifier) parts ∧
        (∀ parts', Normalizes (folder importer ++ Text.segments specifier) parts' → parts' = parts) ∧
        importedFile? present importer specifier =
          (scriptEndings.map (Text.joinSegments parts ++ ·)).find? present

/-- Relative imports of scripts go by the path that is meant. -/
theorem importsByPath_script (script : Language.ofPath? importer = some language)
    (braces : language.usesBraces = true) (plain : ∀ s ∈ Text.segments importer, PlainSegment s)
    (present : String → Bool) : ImportsByPath present importer := by
  have levels : ∀ s ∈ folder importer, PlainSegment s := fun s member =>
    plain s (List.dropLast_subset _ member)
  have whole : (folder importer).filter (· ≠ "") = folder importer := by
    rw [List.filter_eq_self]
    intro s member
    exact decide_eq_true (levels s member).1
  have meaning : ∀ {specifier}, RelativeSpecifier specifier →
      importedFile? present importer specifier =
        (walk (folder importer).reverse (Text.segments specifier)).bind fun parts =>
          firstPresent present scriptEndings (Text.joinSegments parts.reverse) := by
    intro specifier relative
    rw [importedFile?_script script braces relative, whole]
  refine ⟨?_, ?_, ?_, ?_⟩
  · intro specifier path _ found
    exact present_of_importedFile found
  · intro specifier specifier' relative relative' shortens
    rw [meaning relative, meaning relative', shortens.walk_eq]
  · intro specifier relative climbs
    have lost : walk (folder importer).reverse (Text.segments specifier) = none := by
      rwa [walk_eq_none_iff, List.length_reverse]
    rw [meaning relative, lost, Option.bind_none]
  · intro specifier relative stays
    obtain ⟨out, found⟩ := exists_walk (folder importer).reverse (Text.segments specifier)
      (by rwa [List.length_reverse])
    have normal := shortens_of_walk (fun s member => levels s (List.mem_reverse.mp member)) found
    rw [List.reverse_reverse] at normal
    refine ⟨out.reverse, normal, fun parts' normal' => normal.unique normal', ?_⟩
    rw [meaning relative, found, Option.bind_some, firstPresent]

/-- A directory that is left and entered again on the way to the index of a third one. -/
theorem importsByPath_script_index :
    (Language.ofPath? "src/app/main.ts" = some .typeScript ∧
      Language.usesBraces .typeScript = true ∧
      ∀ s ∈ Text.segments "src/app/main.ts", PlainSegment s) ∧
    ImportsByPath ["src/lib/index.ts"].contains "src/app/main.ts" ∧
    importedFile? ["src/lib/index.ts"].contains "src/app/main.ts" "../app/.././lib" =
      some "src/lib/index.ts" := by
  have plain : ∀ s ∈ Text.segments "src/app/main.ts", PlainSegment s := by decide
  exact ⟨⟨by decide, by decide, plain⟩,
    importsByPath_script (by decide) (by decide : Language.usesBraces .typeScript = true) plain _,
    by decide +kernel⟩

end

end CodeAtlas.Source
