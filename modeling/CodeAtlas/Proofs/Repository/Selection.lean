import CodeAtlas.Proofs.Text.Order
import CodeAtlas.Repository.Selection

/-!
# A selection accounts for every file

Every file of a listing is kept or skipped, as often as it is listed. It is skipped because one of its own
checks fails, which the settings decide by themselves, or because as many files as may be kept come before
it. What has been kept is kept once more, and the order of a listing makes no difference to what becomes of
its files.
-/

namespace CodeAtlas

/-- A valid pattern keeps the text it was read from. -/
theorem Glob.text_of_parse? {text : String} {g : Glob} (valid : Glob.parse? text = some g) :
    g.text = text := by
  obtain ⟨tokens, -, rfl⟩ := Option.map_eq_some_iff.mp valid
  rfl

namespace FileSelector

/-! ### Checks -/

/-- Why an entry is skipped by itself. -/
inductive Fails (s : BuildSettings) (e : ListingEntry) : Exclusion → Prop
  | noiseDirectory {dir : String} (above : dir ∈ (Text.segments e.path).dropLast)
      (noise : dir ∈ s.noiseDirs) : Fails s e (.noiseDirectory dir)
  | unsupportedLanguage (unknown : Language.ofPath? e.path = none) : Fails s e .unsupportedLanguage
  | tooLarge {size : Nat} (known : e.size = some size) (large : s.maxFileSize < size) :
      Fails s e (.tooLarge size)
  | patternMatch {pattern : String} {g : Glob} (listed : pattern ∈ s.skipPatterns)
      (valid : Glob.parse? pattern = some g) (fits : g.fits e.path = true) :
      Fails s e (.patternMatch pattern)

/-- An entry passes if none of its checks fails. -/
def Passes (s : BuildSettings) (e : ListingEntry) : Prop :=
  ∀ reason, ¬ Fails s e reason

section

variable {s : BuildSettings} {e : ListingEntry} {reason : Exclusion}

/-- The reason that is given is that of a check which fails. -/
theorem fails_of_check (given : (ofSettings s).check e.path e.size = some reason) :
    Fails s e reason := by
  unfold check at given
  split at given
  · next dir found =>
    cases given
    have noise : dir ∈ s.noiseDirs := List.contains_iff_mem.mp (List.find?_some found)
    exact .noiseDirectory (List.mem_of_find?_eq_some found) noise
  · split at given
    · next unknown =>
      cases given
      exact .unsupportedLanguage (by simpa using unknown)
    · split at given
      · next size large =>
        cases given
        obtain ⟨known, large⟩ := Option.filter_eq_some_iff.mp large
        exact .tooLarge known (of_decide_eq_true large)
      · obtain ⟨g, found, rfl⟩ := Option.map_eq_some_iff.mp given
        obtain ⟨pattern, listed, valid⟩ := List.mem_filterMap.mp (List.mem_of_find?_eq_some found)
        rw [Glob.text_of_parse? valid]
        exact .patternMatch listed valid (by simpa using List.find?_some found)

/-- A check that fails is found. -/
theorem Fails.check_isSome (fails : Fails s e reason) :
    ((ofSettings s).check e.path e.size).isSome = true := by
  unfold check
  split
  · rfl
  · next clean =>
    split
    · rfl
    · next supported =>
      split
      · rfl
      · next small =>
        rw [Option.isSome_map, List.find?_isSome]
        cases fails with
        | noiseDirectory above noise =>
          have absent := List.find?_eq_none.mp clean _ above
          simp [ofSettings, noise] at absent
        | unsupportedLanguage unknown => simp [unknown] at supported
        | tooLarge known large => simp [oversize?, known, ofSettings, large] at small
        | patternMatch listed valid fits =>
          exact ⟨_, List.mem_filterMap.mpr ⟨_, listed, valid⟩, fits⟩

theorem check_isNone_iff : ((ofSettings s).check e.path e.size).isNone = true ↔ Passes s e := by
  constructor
  · intro none reason fails
    simpa [Option.isNone_iff_eq_none.mp none] using fails.check_isSome
  · intro passes
    cases given : (ofSettings s).check e.path e.size with
    | none => rfl
    | some reason => exact absurd (fails_of_check given) (passes reason)

end

/-! ### Parts of a selection -/

/-- The files of a listing. -/
def filesOf (entries : List ListingEntry) : List ListingEntry :=
  entries.filter (·.kind == .blob)

/-- Whether an entry is a file that is not skipped by itself. -/
def passes (f : FileSelector) (e : ListingEntry) : Bool :=
  (f.check e.path e.size).isNone && e.kind == .blob

/-- The files that pass, in order of their paths. -/
def passing (f : FileSelector) (entries : List ListingEntry) : List ListingEntry :=
  (entries.filter f.passes).mergeSort (Text.textBefore ListingEntry.path)

/-- The files that do not pass, with the reasons. -/
def refused (f : FileSelector) (entries : List ListingEntry) : List (ListingEntry × Exclusion) :=
  (filesOf entries).filterMap fun e => (f.check e.path e.size).map (e, ·)

/-- The files that are skipped, those beyond the limit after the others. -/
def skippedFiles (f : FileSelector) (entries : List ListingEntry) : List (ListingEntry × Exclusion) :=
  f.refused entries ++ ((f.passing entries).drop f.maxFiles).map (·, .fileLimit)

/-- A skipped file as a selection lists it. -/
def listed (x : ListingEntry × Exclusion) : String × Exclusion :=
  (x.1.path, x.2)

section

variable {f : FileSelector} {entries entries' : List ListingEntry} {e : ListingEntry}
  {reason : Exclusion}

theorem filter_filesOf (f : FileSelector) (entries : List ListingEntry) :
    (filesOf entries).filter (fun e => (f.check e.path e.size).isNone) = entries.filter f.passes :=
  List.filter_filter

theorem filter_eq (f : FileSelector) (entries : List ListingEntry) : f.filter entries =
    ⟨(f.passing entries).take f.maxFiles, (f.skippedFiles entries).map listed⟩ := by
  have refused : (f.refused entries).map listed = (filesOf entries).filterMap fun e =>
      (f.check e.path e.size).map fun reason => (e.path, reason) := by
    simp [refused, List.map_filterMap, listed, Function.comp_def]
  rw [skippedFiles, List.map_append, refused, List.map_map, passing, ← filter_filesOf]
  rfl

theorem mem_passing : e ∈ f.passing entries ↔ e ∈ entries ∧ f.passes e = true := by
  rw [passing, List.mem_mergeSort, List.mem_filter]

theorem passing_sorted (f : FileSelector) (entries : List ListingEntry) :
    (f.passing entries).Pairwise fun a b => a.path ≤ b.path :=
  Text.mergeSort_ordered ListingEntry.path _

theorem mem_refused : (e, reason) ∈ f.refused entries ↔
    e ∈ filesOf entries ∧ f.check e.path e.size = some reason := by
  simp only [refused, List.mem_filterMap, Option.map_eq_some_iff, Prod.mk.injEq]
  constructor
  · rintro ⟨_, file, _, given, rfl, rfl⟩
    exact ⟨file, given⟩
  · rintro ⟨file, given⟩
    exact ⟨e, file, reason, given, rfl, rfl⟩

/-- A file passes or is refused. -/
theorem passing_append_refused (f : FileSelector) (entries : List ListingEntry) :
    (f.passing entries ++ (f.refused entries).map Prod.fst).Perm (filesOf entries) := by
  have fails : (f.refused entries).map Prod.fst =
      (filesOf entries).filter fun e => !(f.check e.path e.size).isNone := by
    rw [refused, List.map_filterMap, ← List.filterMap_eq_filter]
    apply List.filterMap_congr
    intro e _
    cases given : f.check e.path e.size <;> simp [Option.guard, given]
  rw [fails, passing, ← filter_filesOf]
  exact ((List.mergeSort_perm _ _).append_right _).trans (List.filter_append_perm _ _)

theorem kept_filter_eq (f : FileSelector) (entries : List ListingEntry) :
    (f.filter entries).kept = (f.passing entries).take f.maxFiles := by
  rw [filter_eq]

theorem passes_of_mem_kept (member : e ∈ (f.filter entries).kept) : f.passes e = true := by
  rw [kept_filter_eq] at member
  exact (mem_passing.mp (List.mem_of_mem_take member)).2

theorem skipped_filter_eq (f : FileSelector) (entries : List ListingEntry) :
    (f.filter entries).skipped = (f.skippedFiles entries).map listed := by
  rw [filter_eq]

/-- Every file is kept or skipped. -/
theorem kept_append_skippedFiles (f : FileSelector) (entries : List ListingEntry) :
    ((f.filter entries).kept ++ (f.skippedFiles entries).map Prod.fst).Perm (filesOf entries) := by
  have skipped : (f.skippedFiles entries).map Prod.fst =
      (f.refused entries).map Prod.fst ++ (f.passing entries).drop f.maxFiles := by
    rw [skippedFiles, List.map_append, List.map_map]
    exact congrArg _ (List.map_id _)
  have passes : (f.passing entries).take f.maxFiles ++
      ((f.passing entries).drop f.maxFiles ++ (f.refused entries).map Prod.fst) =
        f.passing entries ++ (f.refused entries).map Prod.fst := by
    rw [← List.append_assoc, List.take_append_drop]
  rw [kept_filter_eq, skipped]
  refine .trans (List.perm_append_comm.append_left _) ?_
  rw [passes]
  exact passing_append_refused f entries

/-- Beyond the limit are files that come after as many as may be kept. -/
theorem kept_before_of_mem_drop (member : e ∈ (f.passing entries).drop f.maxFiles) :
    (f.filter entries).kept.length = f.maxFiles ∧ ∀ k ∈ (f.filter entries).kept, k.path ≤ e.path := by
  -- A sorted list that is cut has each part before the cut before each behind it.
  have sorted := f.passing_sorted entries
  rw [← List.take_append_drop f.maxFiles (f.passing entries), List.pairwise_append] at sorted
  have more := List.length_pos_of_mem member
  rw [List.length_drop] at more
  rw [kept_filter_eq, List.length_take]
  exact ⟨by omega, fun k inKept => sorted.2.2 k inKept e member⟩

/-- What has been kept is kept again, and nothing else is there to be skipped. -/
theorem filter_kept (f : FileSelector) (entries : List ListingEntry) :
    f.filter (f.filter entries).kept = ⟨(f.filter entries).kept, []⟩ := by
  have passes : ∀ e ∈ (f.filter entries).kept, f.passes e = true := fun e => passes_of_mem_kept
  have sorted : (f.filter entries).kept.Pairwise fun a b =>
      Text.textBefore ListingEntry.path a b = true := by
    rw [kept_filter_eq]
    exact ((f.passing_sorted entries).sublist (List.take_sublist _ _)).imp decide_eq_true
  have few := f.length_kept_filter_le entries
  have all : f.passing (f.filter entries).kept = (f.filter entries).kept := by
    rw [passing, List.filter_eq_self.mpr passes]
    exact List.mergeSort_of_pairwise sorted
  have none : f.refused (f.filter entries).kept = [] := by
    rw [refused, List.filterMap_eq_nil_iff]
    intro e file
    have passing := passes e (List.mem_filter.mp file).1
    simp only [FileSelector.passes, Bool.and_eq_true, Option.isNone_iff_eq_none] at passing
    rw [passing.1, Option.map_none]
  rw [filter_eq, skippedFiles, all, none, List.take_of_length_le few, List.drop_of_length_le few]
  rfl

/-! ### Paths of a selection -/

theorem map_path_passing (f : FileSelector) (entries : List ListingEntry) :
    (f.passing entries).map ListingEntry.path =
      ((entries.filter f.passes).map ListingEntry.path).mergeSort (Text.textBefore id) :=
  Text.map_mergeSort ListingEntry.path _

theorem map_path_passing_perm (perm : entries.Perm entries') :
    (f.passing entries).map ListingEntry.path = (f.passing entries').map ListingEntry.path := by
  rw [map_path_passing, map_path_passing, Text.mergeSort_perm_eq ((perm.filter _).map _)]

/-- The kept paths are the first ones, in order, of the entries that pass. -/
theorem kept_paths (f : FileSelector) (entries : List ListingEntry) :
    (f.filter entries).kept.map ListingEntry.path =
      (((entries.filter f.passes).map ListingEntry.path).mergeSort (Text.textBefore id)).take
        f.maxFiles := by
  rw [kept_filter_eq, List.map_take, map_path_passing]

theorem kept_paths_perm (perm : entries.Perm entries') :
    (f.filter entries).kept.map ListingEntry.path =
      (f.filter entries').kept.map ListingEntry.path := by
  rw [kept_filter_eq, kept_filter_eq, List.map_take, List.map_take, map_path_passing_perm perm]

theorem kept_paths_sorted :
    ((f.filter entries).kept.map ListingEntry.path).Pairwise (· ≤ ·) := by
  rw [kept_paths]
  exact (Text.mergeSort_ordered id _).sublist (List.take_sublist _ _)

/-- In another order of the listing the same paths are skipped for the same reasons. -/
theorem skipped_perm (perm : entries.Perm entries') :
    (f.filter entries).skipped.Perm (f.filter entries').skipped := by
  have beyond : ((f.passing entries).drop f.maxFiles).map ListingEntry.path =
      ((f.passing entries').drop f.maxFiles).map ListingEntry.path := by
    rw [List.map_drop, List.map_drop, map_path_passing_perm perm]
  have refused : (f.refused entries).Perm (f.refused entries') := (perm.filter _).filterMap _
  have shown : ∀ items : List ListingEntry, (items.map fun e => (e, Exclusion.fileLimit)).map listed =
      (items.map ListingEntry.path).map fun path => (path, Exclusion.fileLimit) := by
    intro items
    simp [listed]
  rw [skipped_filter_eq, skipped_filter_eq, skippedFiles, skippedFiles, List.map_append,
    List.map_append, shown, shown, beyond]
  exact (refused.map _).append_right _

end

/-! ### Accounts -/

/-- Why a file is skipped: one of its checks fails; or it passes, and as many files as may be kept are kept
and come before it. -/
inductive Skips (s : BuildSettings) (kept : List ListingEntry) (e : ListingEntry) : Exclusion → Prop
  | failing {reason : Exclusion} (fails : Fails s e reason) : Skips s kept e reason
  | fileLimit (passes : Passes s e) (full : kept.length = s.maxFiles)
      (before : ∀ k ∈ kept, k.path ≤ e.path) : Skips s kept e .fileLimit

/-- What a selection is to a listing. -/
structure Accounts (s : BuildSettings) (entries : List ListingEntry) (selection : Selection) : Prop where
  paths : (selection.kept.map ListingEntry.path ++ selection.skipped.map Prod.fst).Perm
    ((filesOf entries).map ListingEntry.path)
  sorted : (selection.kept.map ListingEntry.path).Pairwise (· ≤ ·)
  few : selection.kept.length ≤ s.maxFiles
  passes : ∀ e ∈ selection.kept, Passes s e
  /-- The skipped paths are those of the other files, each of which has its reason. -/
  skips : ∃ skipped : List (ListingEntry × Exclusion), selection.skipped = skipped.map listed ∧
    (selection.kept ++ skipped.map Prod.fst).Perm (filesOf entries) ∧
      ∀ x ∈ skipped, Skips s selection.kept x.1 x.2
  again : (ofSettings s).filter selection.kept = ⟨selection.kept, []⟩
  reordered : ∀ entries', entries.Perm entries' →
    ((ofSettings s).filter entries').kept.map ListingEntry.path =
        selection.kept.map ListingEntry.path ∧
      ((ofSettings s).filter entries').skipped.Perm selection.skipped

section

variable {s : BuildSettings} {entries : List ListingEntry} {e : ListingEntry} {reason : Exclusion}

theorem passes_ofSettings_iff :
    (ofSettings s).passes e = true ↔ Passes s e ∧ e.kind = .blob := by
  rw [passes, Bool.and_eq_true, check_isNone_iff, beq_iff_eq]

theorem skips_of_mem_skippedFiles (member : (e, reason) ∈ (ofSettings s).skippedFiles entries) :
    Skips s ((ofSettings s).filter entries).kept e reason := by
  rw [skippedFiles, List.mem_append] at member
  cases member with
  | inl refused => exact .failing (fails_of_check (mem_refused.mp refused).2)
  | inr beyond =>
    obtain ⟨_, dropped, same⟩ := List.mem_map.mp beyond
    cases same
    obtain ⟨full, before⟩ := kept_before_of_mem_drop dropped
    have passes := (mem_passing.mp (List.mem_of_mem_drop dropped)).2
    exact .fileLimit (passes_ofSettings_iff.mp passes).1 full before

/-- A selection accounts for every file of a listing. -/
theorem filter_accounts (s : BuildSettings) (entries : List ListingEntry) :
    Accounts s entries ((ofSettings s).filter entries) where
  paths := by
    have all := (kept_append_skippedFiles (ofSettings s) entries).map ListingEntry.path
    rw [List.map_append, List.map_map] at all
    rw [skipped_filter_eq, List.map_map]
    exact all
  sorted := kept_paths_sorted
  few := length_kept_filter_le _ entries
  passes e member := (passes_ofSettings_iff.mp (passes_of_mem_kept member)).1
  skips := by
    refine ⟨_, skipped_filter_eq _ entries, kept_append_skippedFiles _ entries, ?_⟩
    intro x member
    exact skips_of_mem_skippedFiles member
  again := filter_kept _ entries
  reordered entries' perm := ⟨(kept_paths_perm perm).symm, (skipped_perm perm).symm⟩

end

end FileSelector

end CodeAtlas
