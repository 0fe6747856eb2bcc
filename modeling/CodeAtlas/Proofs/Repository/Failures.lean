import CodeAtlas.Proofs.Assembly.Unread
import CodeAtlas.Proofs.Repository.Build
import CodeAtlas.Proofs.Repository.Selection

/-!
# Files that cannot be fetched

A file that cannot be fetched does not stop a build: the build ends in a graph where it would
otherwise, and that is what is left of the graph of all files.
-/

namespace CodeAtlas

/-- The provider, but for some files, which it does not find. -/
def Provider.without (p : Provider) (broken : String → Bool) : Provider :=
  { p with
    contents := fun owner repo branch path =>
      if broken path then .error (.notFound path) else p.contents owner repo branch path }

namespace Build

/-- The second of two providers fails on some files and is otherwise like the first. -/
structure FailsOn (p q : Provider) (broken : String → Bool) : Prop where
  defaultBranch : q.defaultBranch = p.defaultBranch
  listing : q.listing = p.listing
  contents : ∀ owner repo branch path, broken path = false →
    q.contents owner repo branch path = p.contents owner repo branch path
  fails : ∀ owner repo branch path, broken path = true →
    ∃ e, q.contents owner repo branch path = .error e

theorem failsOn_without (p : Provider) (broken : String → Bool) :
    FailsOn p (p.without broken) broken := by
  constructor
  case defaultBranch => rfl
  case listing => rfl
  case contents =>
    intro owner repo branch path whole
    simp [Provider.without, whole]
  case fails =>
    intro owner repo branch path lost
    exact ⟨.notFound path, by simp [Provider.without, lost]⟩

/-- How a build ends beside one for which the texts of some files are there. -/
structure Isolated (broken : String → Bool) (whole ended : Except Fault RepoGraph) : Prop where
  succeeds : (∃ h, ended = .ok h) ↔ ∃ g, whole = .ok g
  loses : ∀ g h, whole = .ok g → ended = .ok h → g.Loses h broken

theorem isolated_of_loses {broken : String → Bool} {g h : RepoGraph} (loses : g.Loses h broken) :
    Isolated broken (.ok g) (.ok h) where
  succeeds := iff_of_true ⟨h, rfl⟩ ⟨g, rfl⟩
  loses := by
    rintro _ _ ⟨⟩ ⟨⟩
    exact loses

theorem isolated_of_error (broken : String → Bool) (e : Fault) :
    Isolated broken (.error e) (.error e) where
  succeeds := Iff.rfl
  loses _ _ built := nomatch built

/-! ### Fetching -/

/-- What is read of a fetched file is genuine and has its path. -/
theorem genuine_of_reading {content : String → Except Fault String} {path : String}
    {f : FileReading} (read : reading? content path = some f) : f.Genuine ∧ f.path = path := by
  unfold reading? at read
  split at read
  · next text _ =>
    obtain ⟨language, known, rfl⟩ := Option.map_eq_some_iff.mp read
    exact ⟨FileReading.genuine_parse text known, rfl⟩
  · obtain ⟨language, -, rfl⟩ := Option.map_eq_some_iff.mp read
    exact ⟨.inr rfl, rfl⟩

section

variable {p q : Provider} {broken : String → Bool}

/-- Of a file that cannot be fetched nothing is read but its path. -/
theorem reading_masked (fails : FailsOn p q broken) (owner repo branch path : String) :
    reading? (q.contents owner repo branch) path =
      (reading? (p.contents owner repo branch) path).map (FileReading.masked broken) := by
  by_cases lost : broken path = true
  · obtain ⟨e, fault⟩ := fails.fails owner repo branch path lost
    have nothing : reading? (q.contents owner repo branch) path = FileReading.unread? path := by
      simp [reading?, fault]
    rw [nothing]
    cases text : p.contents owner repo branch path with
    | ok content =>
      simp [reading?, text, FileReading.ofSource?, FileReading.unread?, FileReading.masked, lost,
        Function.comp_def]
    | error e =>
      simp [reading?, text, FileReading.unread?, FileReading.masked, lost, Function.comp_def]
  · have whole : broken path = false := Bool.eq_false_iff.mpr lost
    have same : reading? (q.contents owner repo branch) path =
        reading? (p.contents owner repo branch) path := by
      unfold reading?
      rw [fails.contents owner repo branch path whole]
    rw [same]
    cases read : reading? (p.contents owner repo branch) path with
    | none => rfl
    | some f =>
      obtain ⟨-, rfl⟩ := genuine_of_reading read
      rw [Option.map_some, FileReading.masked_of_whole whole]

/-- Of several files those that can be fetched are read as before. -/
theorem readings_masked (fails : FailsOn p q broken) (owner repo branch : String)
    (paths : List String) :
    paths.filterMap (reading? (q.contents owner repo branch)) =
      (paths.filterMap (reading? (p.contents owner repo branch))).map
        (FileReading.masked broken) := by
  rw [List.map_filterMap]
  congr 1
  funext path
  exact reading_masked fails owner repo branch path

/-! ### Builds -/

theorem FailsOn.branchOf_eq (fails : FailsOn p q broken) (owner repo : String)
    (branch : Option String) : branchOf q owner repo branch = branchOf p owner repo branch := by
  cases branch with
  | some name => rfl
  | none => exact congrFun (congrFun fails.defaultBranch owner) repo

/-- A build from a provider that fails on some files ends in a graph where it would otherwise, and
that is the graph that is left without the texts of the files. -/
theorem run_isolated (fails : FailsOn p q broken) (settings : BuildSettings) (owner repo : String)
    (branch : Option String) :
    Isolated broken (run p settings .never owner repo branch).outcome
      (run q settings .never owner repo branch).outcome := by
  have sameBranch := fails.branchOf_eq owner repo branch
  cases known : branchOf p owner repo branch with
  | error e =>
    rw [run_never_of_branch_error known, run_never_of_branch_error (sameBranch.trans known)]
    exact isolated_of_error broken e
  | ok name =>
    have known' := sameBranch.trans known
    cases listed : p.listing owner repo name with
    | error e =>
      have listed' : q.listing owner repo name = .error e := by rw [fails.listing, listed]
      rw [run_never_of_listing_error known listed, run_never_of_listing_error known' listed']
      exact isolated_of_error broken e
    | ok tree =>
      have listed' : q.listing owner repo name = .ok tree := by rw [fails.listing, listed]
      have plain : ∀ f ∈ (keptPaths settings tree).filterMap
          (reading? (p.contents owner repo name)), f.Plain := by
        intro f member
        obtain ⟨path, -, read⟩ := List.mem_filterMap.mp member
        exact (genuine_of_reading read).1.plain
      rw [run_never known listed, run_never known' listed', readings_masked fails]
      exact isolated_of_loses (Assembly.build_loses plain owner repo name broken)

/-- The first of two files cannot be fetched. -/
theorem run_isolated_firstOfTwo :
    let p : Provider := ⟨fun _ _ => .ok "main",
      fun _ _ _ => .ok [ListingEntry.blob "a.py" 20, .blob "b.py" 20],
      fun _ _ _ _ => .ok "def f():\n  pass\n"⟩
    FailsOn p (p.without (· == "a.py")) (· == "a.py") ∧
      Isolated (· == "a.py") (run p {} .never "owner" "repo" none).outcome
        (run (p.without (· == "a.py")) {} .never "owner" "repo" none).outcome := by
  intro p
  have fails := failsOn_without p (· == "a.py")
  exact ⟨fails, run_isolated fails {} "owner" "repo" none⟩

/-- Two imports that share an id, because there are arrows in the paths: the one that is left out
shows when the file of the other one cannot be fetched. -/
theorem run_hiddenImport :
    let tree := [ListingEntry.blob "x.ts" 40, .blob "x.ts->file:y.ts" 30, .blob "y.ts->file:x.ts" 0]
    let p : Provider := ⟨fun _ _ => .ok "main", fun _ _ _ => .ok tree, fun _ _ _ path =>
      .ok (if path = "x.ts" then "import { a } from './y.ts->file:x.ts';\n"
        else if path = "x.ts->file:y.ts" then "import { b } from './x';\n" else "")⟩
    let q := p.without (· == "x.ts")
    FailsOn p q (· == "x.ts") ∧ ∃ g h e, (run p {} .never "owner" "repo" none).outcome = .ok g ∧
      (run q {} .never "owner" "repo" none).outcome = .ok h ∧ e ∈ h.edgesOf .imports ∧
        g.leaves (· == "x.ts") e = false ∧ e ∉ g.edgesOf .imports := by
  intro tree p q
  have kept : keptPaths {} tree = ["x.ts", "x.ts->file:y.ts", "y.ts->file:x.ts"] := by
    have passing : tree.filter (FileSelector.ofSettings {}).passes = tree := by decide +kernel
    have ordered : (tree.map ListingEntry.path).Pairwise fun a b => Text.textBefore id a b = true := by
      decide
    unfold keptPaths
    rw [FileSelector.kept_paths, passing, List.mergeSort_of_pairwise ordered]
    rfl
  have builtP : run p {} .never "owner" "repo" none = _ := run_never rfl rfl
  have builtQ : run q {} .never "owner" "repo" none = _ := run_never rfl rfl
  rw [kept] at builtP builtQ
  obtain ⟨e, isNew, belongs, hidden⟩ := Assembly.build_hiddenImport "owner" "repo" "main"
  exact ⟨failsOn_without p _, _, _, e, congrArg Report.outcome builtP,
    congrArg Report.outcome builtQ, isNew, belongs, hidden⟩

end

end Build

end CodeAtlas
