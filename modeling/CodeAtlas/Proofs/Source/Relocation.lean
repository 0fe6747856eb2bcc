import CodeAtlas.Proofs.Source.ScriptImport

/-!
# Imports below another root

If all files of a repository are put below a directory, a relative import means the same file as before,
below that directory, as long as it does not mean the root itself. There is no name for the root in its
own repository, while below a directory it is that directory: so a Python module that means the root
means nothing, but the package file of the directory once there is one.
-/

namespace CodeAtlas.Source

/-- A path below a directory. -/
def under (dir path : String) : String :=
  dir ++ "/" ++ path

/-- The number of points with which a module starts. -/
def leadingDots (module_ : String) : Nat :=
  (module_.toList.takeWhile (· == '.')).length

/-- What follows the leading points of a module, as a path. -/
def moduleRest (module_ : String) : String :=
  String.ofList ((module_.toList.dropWhile (· == '.')).map fun c => if c = '.' then '/' else c)

/-- The import is relative and does not lead above the root. -/
def StaysInside (importer specifier : String) : Prop :=
  match Language.ofPath? importer with
  | some .python =>
    0 < leadingDots specifier ∧ leadingDots specifier ≤ (folder importer).length + 1
  | some _ =>
    RelativeSpecifier specifier ∧
      ¬ Climbs ((folder importer).filter (· ≠ "")).length (Text.segments specifier)
  | none => True

/-- The import takes back the whole directory of the importing file and names nothing then. -/
def MeansRoot (importer specifier : String) : Prop :=
  match Language.ofPath? importer with
  | some .python =>
    leadingDots specifier = (folder importer).length + 1 ∧ ∀ c ∈ specifier.toList, c = '.'
  | some _ =>
    ((folder importer).filter (· ≠ "")).length +
      (Text.segments specifier).countP (PlainSegment ·) = (Text.segments specifier).count ".."
  | none => False

instance (importer specifier : String) : Decidable (StaysInside importer specifier) := by
  unfold StaysInside
  split <;> infer_instance

instance (importer specifier : String) : Decidable (MeansRoot importer specifier) := by
  -- the characters of the module are looked at, not all characters
  have points : Decidable (∀ c ∈ specifier.toList, c = '.') := List.decidableBAll _ _
  unfold MeansRoot
  split <;> infer_instance

/-- Below a directory the import means the same file as before, below that directory. -/
def Relocates (dir : String) (files : List String) (importer specifier : String) : Prop :=
  importedFile? (files.map (under dir)).contains (under dir importer) specifier =
    (importedFile? files.contains importer specifier).map (under dir)

instance (dir : String) (files : List String) (importer specifier : String) :
    Decidable (Relocates dir files importer specifier) :=
  inferInstanceAs (Decidable (_ = _))

section

variable {dir importer specifier rest : String} {files : List String}

/-! ### Paths below a directory -/

theorem under_injective (dir : String) : Function.Injective (under dir) := by
  intro path path' same
  rw [under, under, ← String.toList_inj] at same
  simpa [String.toList_inj] using same

theorem under_ne_empty (dir path : String) : under dir path ≠ "" := by
  intro same
  have characters := congrArg String.toList same
  simp [under] at characters

theorem contains_under (dir : String) (files : List String) (path : String) :
    (files.map (under dir)).contains (under dir path) = files.contains path := by
  rw [Bool.eq_iff_iff, List.contains_iff_mem, List.contains_iff_mem]
  exact List.mem_map_of_injective (under_injective dir)

theorem ofPath?_under (dir path : String) :
    Language.ofPath? (under dir path) = Language.ofPath? path := by
  have name : Text.afterLast '/' (under dir path).toList = Text.afterLast '/' path.toList := by
    have characters : (under dir path).toList = dir.toList ++ '/' :: path.toList := by
      simp [under]
    rw [characters, Text.afterLast_append]
  rw [Language.ofPath?, Language.ofPath?, name]

theorem folder_under (dir path : String) :
    folder (under dir path) = Text.segments dir ++ folder path := by
  rw [folder, under, Text.segments_append, List.dropLast_append_of_ne_nil (Text.segments_ne_nil path),
    folder]

/-- What is reached below the directory, as a path. -/
theorem joinSegments_under (dir : String) {parts : List String} (nonempty : parts ≠ []) :
    Text.joinSegments (Text.segments dir ++ parts) = under dir (Text.joinSegments parts) := by
  rw [Text.joinSegments_append (Text.segments_ne_nil dir) nonempty, Text.joinSegments_segments, under]

theorem firstPresent_under (dir base : String) (files endings : List String) :
    firstPresent (files.map (under dir)).contains endings (under dir base) =
      (firstPresent files.contains endings base).map (under dir) := by
  have candidates : endings.map (under dir base ++ ·) =
      (endings.map (base ++ ·)).map (under dir) := by
    rw [List.map_map]
    apply List.map_congr_left
    intro ending _
    simp only [under, Function.comp_apply, String.append_assoc]
  rw [firstPresent, candidates, List.find?_map, firstPresent]
  simp only [Function.comp_def, contains_under]

/-! ### Scripts -/

theorem relocates_script {language : Language} (known : Language.ofPath? importer = some language)
    (braces : language.usesBraces = true) (plain : ∀ s ∈ Text.segments dir, PlainSegment s)
    (relative : RelativeSpecifier specifier)
    (stays : ¬ Climbs ((folder importer).filter (· ≠ "")).length (Text.segments specifier))
    (notRoot : ((folder importer).filter (· ≠ "")).length +
      (Text.segments specifier).countP (PlainSegment ·) ≠ (Text.segments specifier).count "..") :
    Relocates dir files importer specifier := by
  obtain ⟨out, found⟩ := exists_walk ((folder importer).filter (· ≠ "")).reverse
    (Text.segments specifier) (by rwa [List.length_reverse])
  have nonempty : out.reverse ≠ [] := by
    have balance := length_walk found
    rw [List.length_reverse] at balance
    rintro empty
    rw [List.reverse_eq_nil_iff.mp empty, List.length_nil, Nat.zero_add] at balance
    exact notRoot balance.symm
  have whole : (Text.segments dir).filter (· ≠ "") = Text.segments dir := by
    rw [List.filter_eq_self]
    intro s member
    exact decide_eq_true (plain s member).1
  have below : walk ((folder (under dir importer)).filter (· ≠ "")).reverse (Text.segments specifier) =
      some (out ++ (Text.segments dir).reverse) := by
    rw [folder_under, List.filter_append, whole, List.reverse_append]
    exact walk_under found _
  have known' := (ofPath?_under dir importer).trans known
  rw [Relocates, importedFile?_script known' braces relative, importedFile?_script known braces relative,
    below, found, Option.bind_some, Option.bind_some, List.reverse_append, List.reverse_reverse,
    joinSegments_under dir nonempty, firstPresent_under]

/-! ### Python modules -/

theorem importedFile?_python {present : String → Bool}
    (known : Language.ofPath? importer = some .python) {levels : Nat}
    (dots : leadingDots specifier = levels + 1) :
    importedFile? present importer specifier =
      (ancestor levels (Text.joinSegments (folder importer))).bind fun dir =>
        let base := joinParts dir (moduleRest specifier)
        if base = "" then none else firstPresent present pythonEndings base := by
  rw [leadingDots] at dots
  unfold importedFile?
  rw [known]
  dsimp only
  rw [if_neg (by decide), pythonFile?, dots, Text.folderOf_eq, folder]
  rfl

theorem joinSegments_ne_empty {parts : List String} (nonempty : parts ≠ [])
    (first : parts.head? ≠ some "") : Text.joinSegments parts ≠ "" := by
  obtain ⟨s, rest, rfl⟩ := List.exists_cons_of_ne_nil nonempty
  have named : s ≠ "" := fun same => first (congrArg some same)
  by_cases last : rest = []
  · rwa [last]
  · rw [Text.joinSegments_cons s last]
    exact under_ne_empty s _

/-- Some levels up, as many segments of the directory are left out. -/
theorem ancestor_joinSegments {parts : List String} (first : parts.head? ≠ some "")
    (pieces : ∀ s ∈ parts, '/' ∉ s.toList) {levels : Nat} (few : levels ≤ parts.length) :
    ancestor levels (Text.joinSegments parts) =
      some (Text.joinSegments (parts.take (parts.length - levels))) := by
  induction levels generalizing parts with
  | zero => rw [ancestor, Nat.sub_zero, List.take_length]
  | succ n ih =>
    have nonempty : parts ≠ [] := List.length_pos_iff.mp (by omega)
    have first' : parts.dropLast.head? ≠ some "" := by
      obtain ⟨s, rest, rfl⟩ := List.exists_cons_of_ne_nil nonempty
      cases rest with
      | nil => simp
      | cons t more => exact first
    have pieces' : ∀ s ∈ parts.dropLast, '/' ∉ s.toList := fun s member =>
      pieces s (List.dropLast_subset _ member)
    have rest := ih first' pieces' (by rw [List.length_dropLast]; omega)
    rw [ancestor, if_neg (joinSegments_ne_empty nonempty first), Text.folderOf_eq,
      Text.segments_joinSegments nonempty pieces, rest, List.length_dropLast, List.dropLast_eq_take,
      List.take_take]
    congr 3
    omega

theorem head?_segments_append (plain : ∀ s ∈ Text.segments dir, PlainSegment s) (up : List String) :
    (Text.segments dir ++ up).head? ≠ some "" := by
  obtain ⟨s, more, whole⟩ := List.exists_cons_of_ne_nil (Text.segments_ne_nil dir)
  rw [whole, List.cons_append, List.head?_cons]
  intro same
  exact (plain s (by rw [whole]; exact List.mem_cons_self)).1 (Option.some.inj same)

theorem joinParts_ne_empty {up : List String} (first : up.head? ≠ some "")
    (nonempty : up ≠ [] ∨ rest ≠ "") : joinParts (Text.joinSegments up) rest ≠ "" := by
  unfold joinParts
  split
  · next last => exact joinSegments_ne_empty (nonempty.resolve_right (not_not_intro last)) first
  · next more =>
    split
    · exact more
    · exact under_ne_empty _ rest

theorem joinParts_under (plain : ∀ s ∈ Text.segments dir, PlainSegment s) {up : List String}
    (first : up.head? ≠ some "") (nonempty : up ≠ [] ∨ rest ≠ "") :
    joinParts (Text.joinSegments (Text.segments dir ++ up)) rest =
      under dir (joinParts (Text.joinSegments up) rest) := by
  have below : Text.joinSegments (Text.segments dir ++ up) ≠ "" :=
    joinSegments_ne_empty (by simp [Text.segments_ne_nil]) (head?_segments_append plain up)
  by_cases last : rest = ""
  · rw [joinParts, joinParts, if_pos last, if_pos last,
      joinSegments_under dir (nonempty.resolve_right (not_not_intro last))]
  · rw [joinParts, joinParts, if_neg last, if_neg last, if_neg below]
    by_cases root : up = []
    · rw [root, List.append_nil, Text.joinSegments_segments]
      rfl
    · rw [if_neg (joinSegments_ne_empty root first), joinSegments_under dir root]
      simp only [under, String.append_assoc]

/-- The part of a module behind its leading points is missing if there are only points. -/
theorem moduleRest_eq_empty_iff (specifier : String) :
    moduleRest specifier = "" ↔ ∀ c ∈ specifier.toList, c = '.' := by
  rw [← String.toList_inj, moduleRest, String.toList_ofList]
  simp [List.dropWhile_eq_nil_iff]

theorem head?_folder (rooted : importer.toList.head? ≠ some '/') : (folder importer).head? ≠ some "" := by
  intro empty
  obtain ⟨more, whole⟩ : ∃ more, (Text.segments importer).dropLast = "" :: more := by
    cases parts : (Text.segments importer).dropLast with
    | nil => rw [folder, parts] at empty; cases empty
    | cons s more =>
      rw [folder, parts] at empty
      exact ⟨more, by rw [Option.some.inj empty]⟩
  have path := Text.joinSegments_segments importer
  rw [← List.dropLast_append_getLast (Text.segments_ne_nil importer), whole, List.cons_append,
    Text.joinSegments_cons _ (by simp)] at path
  apply rooted
  rw [← path]
  simp

section

variable {levels : Nat} (known : Language.ofPath? importer = some .python)
  (plain : ∀ s ∈ Text.segments dir, PlainSegment s) (rooted : importer.toList.head? ≠ some '/')
  (dots : leadingDots specifier = levels + 1) (few : levels ≤ (folder importer).length)

include known rooted dots few in
/-- A module is looked for from as many levels up as it has further points. -/
theorem importedFile?_module (present : String → Bool) :
    importedFile? present importer specifier =
      let base := joinParts
        (Text.joinSegments ((folder importer).take ((folder importer).length - levels)))
        (moduleRest specifier)
      if base = "" then none else firstPresent present pythonEndings base := by
  have pieces : ∀ s ∈ folder importer, '/' ∉ s.toList := fun s member =>
    Text.slash_notMem_segments s (List.dropLast_subset _ member)
  rw [importedFile?_python known dots, ancestor_joinSegments (head?_folder rooted) pieces few,
    Option.bind_some]

include known plain dots few in
theorem importedFile?_module_under (present : String → Bool) :
    importedFile? present (under dir importer) specifier =
      let base := joinParts (Text.joinSegments
        (Text.segments dir ++ (folder importer).take ((folder importer).length - levels)))
        (moduleRest specifier)
      if base = "" then none else firstPresent present pythonEndings base := by
  have pieces : ∀ s ∈ Text.segments dir ++ folder importer, '/' ∉ s.toList := by
    intro s member
    rcases List.mem_append.mp member with above | below
    · exact Text.slash_notMem_segments s above
    · exact Text.slash_notMem_segments s (List.dropLast_subset _ below)
  have fewer : levels ≤ (Text.segments dir ++ folder importer).length := by
    rw [List.length_append]
    omega
  have up : (Text.segments dir ++ folder importer).take
      ((Text.segments dir ++ folder importer).length - levels) =
        Text.segments dir ++ (folder importer).take ((folder importer).length - levels) := by
    rw [List.length_append, Nat.add_sub_assoc few, List.take_length_add_append]
  rw [importedFile?_python ((ofPath?_under dir importer).trans known) dots, folder_under,
    ancestor_joinSegments (head?_segments_append plain _) pieces fewer, up, Option.bind_some]

include known plain rooted dots few in
theorem relocates_python
    (notRoot : ¬ (levels = (folder importer).length ∧ ∀ c ∈ specifier.toList, c = '.')) :
    Relocates dir files importer specifier := by
  have first : ((folder importer).take ((folder importer).length - levels)).head? ≠ some "" := by
    rw [List.head?_take]
    split
    · simp
    · exact head?_folder rooted
  have nonempty : (folder importer).take ((folder importer).length - levels) ≠ [] ∨
      moduleRest specifier ≠ "" := by
    rw [Ne, Ne, moduleRest_eq_empty_iff, List.take_eq_nil_iff, ← not_and_or]
    rintro ⟨top, last⟩
    refine notRoot ⟨?_, last⟩
    rcases top with none | none
    · omega
    · rw [none] at few ⊢
      simpa using few
  have base := joinParts_ne_empty first nonempty
  rw [Relocates, importedFile?_module_under known plain dots few,
    importedFile?_module known rooted dots few, joinParts_under plain first nonempty]
  dsimp only
  rw [if_neg base, if_neg (under_ne_empty _ _), firstPresent_under]

/-- Of what a directory's name can be completed to, only the package file lies in the directory. -/
theorem firstPresent_package (dir : String) (files : List String) :
    firstPresent (files.map (under dir)).contains pythonEndings dir =
      if files.contains "__init__.py" then some (under dir "__init__.py") else none := by
  have beside : (files.map (under dir)).contains (dir ++ ".py") = false := by
    rw [Bool.eq_false_iff, Ne, List.contains_iff_mem]
    intro member
    obtain ⟨path, -, same⟩ := List.mem_map.mp member
    have characters := congrArg String.toList same
    simp [under] at characters
  have inside : dir ++ "/__init__.py" = under dir "__init__.py" := by
    simp only [under, String.append_assoc]
    rfl
  have package := contains_under dir files "__init__.py"
  rw [firstPresent, pythonEndings, List.map_cons, List.map_singleton, List.find?_cons, beside, inside,
    List.find?_singleton, package]

include known plain rooted dots in
/-- A module that means the root means nothing, but below a directory its package file. -/
theorem importedFile?_root (top : levels = (folder importer).length)
    (last : ∀ c ∈ specifier.toList, c = '.') :
    importedFile? files.contains importer specifier = none ∧
      importedFile? (files.map (under dir)).contains (under dir importer) specifier =
        if files.contains "__init__.py" then some (under dir "__init__.py") else none := by
  have few : levels ≤ (folder importer).length := top.le
  have nothing := (moduleRest_eq_empty_iff specifier).mpr last
  have none : (folder importer).take ((folder importer).length - levels) = [] := by
    rw [top, Nat.sub_self, List.take_zero]
  have named : dir ≠ "" := by
    intro same
    exact (plain "" (by rw [same]; exact List.mem_cons_self)).1 rfl
  constructor
  · rw [importedFile?_module known rooted dots few, none, nothing]
    rfl
  · rw [importedFile?_module_under known plain dots few, none, nothing, List.append_nil,
      Text.joinSegments_segments, joinParts, if_pos rfl]
    dsimp only
    rw [if_neg named, firstPresent_package]

end

/-- A relative import does not depend on where the root is, if it does not mean the root itself. What a
Python module means that means the root does. -/
theorem relocates_of_staysInside (plain : ∀ s ∈ Text.segments dir, PlainSegment s)
    (stays : StaysInside importer specifier)
    (rooted : Language.ofPath? importer = some .python → importer.toList.head? ≠ some '/') :
    (¬ MeansRoot importer specifier → Relocates dir files importer specifier) ∧
      (Language.ofPath? importer = some .python → MeansRoot importer specifier →
        importedFile? files.contains importer specifier = none ∧
          importedFile? (files.map (under dir)).contains (under dir importer) specifier =
            if files.contains "__init__.py" then some (under dir "__init__.py") else none) := by
  unfold StaysInside at stays
  unfold MeansRoot
  cases known : Language.ofPath? importer with
  | none =>
    refine ⟨fun _ => ?_, fun python => by cases python⟩
    rw [Relocates, importedFile?, importedFile?, ofPath?_under, known]
    rfl
  | some language =>
    rw [known] at stays
    cases language with
    | python =>
      obtain ⟨levels, dots⟩ : ∃ levels, leadingDots specifier = levels + 1 :=
        Nat.exists_eq_add_one.mpr stays.1
      have few : levels ≤ (folder importer).length := by
        have bound := stays.2
        omega
      refine ⟨fun notRoot => ?_, fun _ root => ?_⟩
      · apply relocates_python known plain (rooted known) dots few
        rintro ⟨top, last⟩
        exact notRoot ⟨by omega, last⟩
      · exact importedFile?_root known plain (rooted known) dots (by omega) root.2
    | typeScript =>
      exact ⟨fun notRoot => relocates_script known rfl plain stays.1 stays.2 notRoot,
        fun python => by cases python⟩
    | javaScript =>
      exact ⟨fun notRoot => relocates_script known rfl plain stays.1 stays.2 notRoot,
        fun python => by cases python⟩

/-- A package file that is found from below, and the package file of the root, which is not. -/
theorem relocates_of_staysInside_package :
    ((∀ s ∈ Text.segments "lib/app", PlainSegment s) ∧
      (StaysInside "pkg/sub/deep.py" "..models" ∧ StaysInside "a.py" ".") ∧
      "pkg/sub/deep.py".toList.head? ≠ some '/' ∧ "a.py".toList.head? ≠ some '/' ∧
      ¬ MeansRoot "pkg/sub/deep.py" "..models" ∧ MeansRoot "a.py" ".") ∧
    Relocates "lib/app" ["pkg/models.py", "pkg/sub/deep.py"] "pkg/sub/deep.py" "..models" ∧
    importedFile? ["a.py", "__init__.py"].contains "a.py" "." = none := by
  have plain : ∀ s ∈ Text.segments "lib/app", PlainSegment s := by decide
  have stays : StaysInside "pkg/sub/deep.py" "..models" := by decide +kernel
  have stays' : StaysInside "a.py" "." := by decide +kernel
  have rooted : "pkg/sub/deep.py".toList.head? ≠ some '/' := by decide
  have rooted' : "a.py".toList.head? ≠ some '/' := by decide
  have inner : ¬ MeansRoot "pkg/sub/deep.py" "..models" := by decide +kernel
  have root : MeansRoot "a.py" "." := by decide +kernel
  exact ⟨⟨plain, ⟨stays, stays'⟩, rooted, rooted', inner, root⟩,
    (relocates_of_staysInside plain stays fun _ => rooted).1 inner,
    ((relocates_of_staysInside plain stays' fun _ => rooted').2 (by decide) root).1⟩

/-- What means the root does not keep its meaning, nor does a Python import in a file whose path starts
with a slash. -/
theorem not_relocates_root :
    (StaysInside "a.py" "." ∧ ¬ Relocates "p" ["a.py", "__init__.py"] "a.py" ".") ∧
      (StaysInside "/b.py" ".x" ∧ ¬ Relocates "p" ["/b.py", "x.py"] "/b.py" ".x") ∧
      StaysInside "a.ts" "./" ∧ ¬ Relocates "p" ["a.ts", "index.ts"] "a.ts" "./" := by
  decide +kernel

end

end CodeAtlas.Source
