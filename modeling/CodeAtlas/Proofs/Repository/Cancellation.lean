import CodeAtlas.Proofs.Repository.Build
import CodeAtlas.Proofs.Repository.Selection
import Mathlib.Algebra.Order.Floor.Div

/-!
# Builds that are given up

A caller who gives up during a fetch is heard before the next batch. So the batch is fetched to its
end, and the build ends there unless there is no further batch; then it ends as if the caller had
waited. Either way a graph is made of all the files or not at all.
-/

namespace CodeAtlas.Build

/-- How many files have been fetched at the end of the batch to which the fetch of a number
belongs. -/
def batchEnd (size number : Nat) : Nat :=
  size * (number ⌈/⌉ size)

/-- How a build ends whose caller gives up during a fetch, where `kept` are the paths to be fetched
and `whole` is the build of a caller who waits. -/
structure StopsAfterBatch (size number : Nat) (kept : List String) (whole report : Report) :
    Prop where
  count : report.fetched.length = min kept.length (batchEnd size number)
  start : report.fetched <+: kept
  sorted : kept.Pairwise (· ≤ ·)
  cancelled : batchEnd size number < kept.length → report.outcome = .error .cancelled
  completed : kept.length ≤ batchEnd size number →
    ∃ g, report.outcome = .ok g ∧ whole.outcome = .ok g

/-- A graph is made of all files that are to be fetched, and all of them have been. -/
structure MadeOfAll (files : List String) (content : String → Except Fault String)
    (owner repo branch : String) (rule : CandidateRule) (g : RepoGraph) (fetched : List String) :
    Prop where
  fetched : fetched = files
  graph : g = Assembly.build owner repo branch (files.filterMap (reading? content)) rule

/-! ### Batches -/

theorem batches_of_ne_nil {α : Type} (size : Nat) {items : List α} (some : items ≠ []) :
    batches size items = items.take (size + 1) :: batches size (items.drop (size + 1)) := by
  cases items with
  | nil => exact absurd rfl some
  | cons a rest => rw [batches, List.drop_succ_cons]

/-- Before a batch, `done` full ones having been fetched, the caller has given up exactly if that
was in one of those. -/
theorem givenUp_duringFetch {number : Nat} (positive : 1 ≤ number) (size done : Nat) :
    givenUp (.duringFetch number) ((size + 1) * done) = decide (number ⌈/⌉ (size + 1) ≤ done) := by
  simp [givenUp, positive]

/-- As many more batches are fetched as are left up to the one in which the caller gives up, `done`
full ones having been fetched before. -/
theorem fetchAll_duringFetch (content : String → Except Fault String) {number size done left : Nat}
    (positive : 1 ≤ number) (last : number ⌈/⌉ (size + 1) = done + left) (paths : List String) :
    fetchAll (.duringFetch number) content ((size + 1) * done) (batches size paths) =
      if paths.length ≤ (size + 1) * left then (some (paths.filterMap (reading? content)), paths)
      else (none, paths.take ((size + 1) * left)) := by
  induction left generalizing done paths with
  | zero =>
    by_cases empty : paths = []
    · simp [empty, batches, fetchAll]
    · have stops := givenUp_duringFetch positive size done
      rw [decide_eq_true (by omega)] at stops
      simp [batches_of_ne_nil size empty, fetchAll, stops, empty]
  | succ left ih =>
    by_cases empty : paths = []
    · simp [empty, batches, fetchAll]
    have goesOn := givenUp_duringFetch positive size done
    rw [decide_eq_false (by omega)] at goesOn
    simp only [batches_of_ne_nil size empty, fetchAll, goesOn, Bool.false_eq_true, if_false]
    by_cases full : size + 1 ≤ paths.length
    · have fetched : (size + 1) * done + (paths.take (size + 1)).length =
          (size + 1) * (done + 1) := by
        rw [List.length_take, Nat.min_eq_left full, Nat.mul_succ]
      rw [fetched, ih (by omega), List.length_drop, Nat.mul_succ]
      by_cases enough : paths.length ≤ (size + 1) * left + (size + 1)
      · rw [if_pos enough, if_pos (by omega)]
        simp [← List.filterMap_append]
      · have cut : paths.take (size + 1 + (size + 1) * left) =
            paths.take (size + 1) ++ (paths.drop (size + 1)).take ((size + 1) * left) :=
          List.take_add
        rw [if_neg enough, if_neg (by omega), Nat.add_comm _ (size + 1), cut]
        rfl
    · -- this batch is the last one
      have few : paths.length ≤ size + 1 := by omega
      have enough : paths.length ≤ (size + 1) * (left + 1) := by
        rw [Nat.mul_succ]
        omega
      rw [List.drop_of_length_le few, List.take_of_length_le few, if_pos enough]
      simp [batches, fetchAll]

/-! ### Builds -/

section

variable {p : Provider} {settings : BuildSettings} {cancel : Cancellation}
  {owner repo name : String} {branch : Option String} {tree : List ListingEntry}
  (known : branchOf p owner repo branch = .ok name) (listed : p.listing owner repo name = .ok tree)

include known listed

/-- A build with a graph has fetched all the files, and its graph is made of all of them. -/
theorem madeOfAll_of_graph {g : RepoGraph}
    (built : (run p settings cancel owner repo branch).outcome = .ok g) :
    MadeOfAll (keptPaths settings tree) (p.contents owner repo name) owner repo name
      settings.ambiguity g (run p settings cancel owner repo branch).fetched := by
  obtain ⟨name', tree', known', listed', fetched, rfl⟩ := exists_of_graph built
  obtain rfl : name' = name := Except.ok.inj (known'.symm.trans known)
  obtain rfl : tree' = tree := Except.ok.inj (listed'.symm.trans listed)
  exact ⟨fetched, rfl⟩

/-- A build whose caller gives up during a fetch stops after the batch, and whenever a caller gives
up, a graph is made of all the files or not at all. -/
theorem run_stopsAfterBatch (settings : BuildSettings) {number : Nat} (positive : 1 ≤ number) :
    StopsAfterBatch (max settings.concurrency 1) number (keptPaths settings tree)
        (run p settings .never owner repo branch)
        (run p settings (.duringFetch number) owner repo branch) ∧
      ∀ cancel g, (run p settings cancel owner repo branch).outcome = .ok g →
        MadeOfAll (keptPaths settings tree) (p.contents owner repo name) owner repo name
          settings.ambiguity g (run p settings cancel owner repo branch).fetched := by
  refine ⟨?_, fun cancel g built => madeOfAll_of_graph known listed built⟩
  have size : max settings.concurrency 1 = settings.concurrency - 1 + 1 := by
    omega
  have whole : run p settings .never owner repo branch = _ := run_never known listed
  have fetches := fetchAll_duringFetch (p.contents owner repo name) positive
    (Nat.zero_add (number ⌈/⌉ (settings.concurrency - 1 + 1))).symm (keptPaths settings tree)
  rw [Nat.mul_zero, ← batchEnd, ← size] at fetches
  have sorted : (keptPaths settings tree).Pairwise (· ≤ ·) := FileSelector.kept_paths_sorted
  by_cases enough : (keptPaths settings tree).length ≤ batchEnd (max settings.concurrency 1) number
  · rw [if_pos enough] at fetches
    have report := run_of_answered fetches known listed
    constructor
    case count => rw [report, Nat.min_eq_left enough]
    case start => rw [report]
    case sorted => exact sorted
    case cancelled => exact fun less => absurd enough (Nat.not_le.mpr less)
    case completed =>
      rw [report, whole]
      exact fun _ => ⟨_, rfl, rfl⟩
  · rw [if_neg enough] at fetches
    have report := run_of_answered fetches known listed
    constructor
    case count => rw [report, List.length_take, Nat.min_comm]
    case start =>
      rw [report]
      exact List.take_prefix _ _
    case sorted => exact sorted
    case cancelled =>
      rw [report]
      exact fun _ => rfl
    case completed => exact fun all => absurd all enough

end

/-- Three files in batches of two: who gives up during the first fetch gets no graph, and who gives
up during the third one is heard too late. -/
theorem run_stopsAfterBatch_threeFiles :
    let tree := [ListingEntry.blob "c.py" 10, .blob "a.py" 20, .blob "b.py" 30]
    let p : Provider := ⟨fun _ _ => .ok "main", fun _ _ _ => .ok tree, fun _ _ _ path =>
      .error (.notFound path)⟩
    let settings : BuildSettings := { concurrency := 2 }
    let build (cancel : Cancellation) := run p settings cancel "owner" "repo" none
    branchOf p "owner" "repo" none = .ok "main" ∧ p.listing "owner" "repo" "main" = .ok tree ∧
      (build (.duringFetch 1)).outcome = .error .cancelled ∧
      (build (.duringFetch 1)).fetched.length = 2 ∧
      (∃ g, (build (.duringFetch 3)).outcome = .ok g ∧ (build .never).outcome = .ok g) ∧
      (build (.duringFetch 3)).fetched.length = 3 := by
  intro tree p settings build
  have count : (keptPaths settings tree).length = 3 := by
    have passing : tree.filter (FileSelector.ofSettings settings).passes = tree := by
      decide +kernel
    rw [keptPaths, FileSelector.kept_paths, passing, List.length_take, List.length_mergeSort,
      List.length_map]
    rfl
  have first : StopsAfterBatch 2 1 (keptPaths settings tree) (build .never)
      (build (.duringFetch 1)) := (run_stopsAfterBatch rfl rfl settings (Nat.le_refl 1)).1
  have third : StopsAfterBatch 2 3 (keptPaths settings tree) (build .never)
      (build (.duringFetch 3)) := (run_stopsAfterBatch rfl rfl settings (by decide)).1
  refine ⟨rfl, rfl, first.cancelled ?_, ?_, third.completed ?_, ?_⟩
  · rw [count]
    decide
  · rw [first.count, count]
    rfl
  · rw [count]
    decide
  · rw [third.count, count]
    rfl

end CodeAtlas.Build
