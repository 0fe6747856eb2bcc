import CodeAtlas.Proofs.Repository.Build
import CodeAtlas.Proofs.Repository.Selection

/-!
# Builds do not depend on the order of a listing

The paths that a build fetches are sorted before the limit cuts them off, so that only the entries of
a listing count and not their order. The batches in which the paths are fetched, put together, are
the paths again. A build that is not given up therefore has the same end for every order of the
listing and for every size of the batches.
-/

namespace CodeAtlas.Build

section

variable {p q : Provider} {settings : BuildSettings} {owner repo : String} {branch : Option String}

/-- Two listings have the same entries, though in different orders, or fail alike. -/
inductive SameListing : Except Fault (List ListingEntry) → Except Fault (List ListingEntry) → Prop
  | entries {tree tree' : List ListingEntry} (perm : tree.Perm tree') :
      SameListing (.ok tree) (.ok tree')
  | fault (e : Fault) : SameListing (.error e) (.error e)

/-- Two providers that differ in nothing but the order of their listings. -/
structure Alike (p q : Provider) : Prop where
  defaultBranch : p.defaultBranch = q.defaultBranch
  contents : p.contents = q.contents
  listing : ∀ owner repo branch,
    SameListing (p.listing owner repo branch) (q.listing owner repo branch)

theorem Alike.branchOf_eq (alike : Alike p q) (owner repo : String) (branch : Option String) :
    branchOf p owner repo branch = branchOf q owner repo branch := by
  cases branch with
  | some name => rfl
  | none => exact congrFun (congrFun alike.defaultBranch owner) repo

/-- The number of files in a batch says nothing about which paths are fetched. -/
theorem keptPaths_concurrency (settings : BuildSettings) (concurrency : Nat)
    (tree : List ListingEntry) :
    keptPaths { settings with concurrency := concurrency } tree = keptPaths settings tree := rfl

/-- A build that is not given up fetches the kept paths in order, and neither the order of the
listing nor the size of the batches makes a difference to its end. -/
theorem run_independent (alike : Alike p q) (settings : BuildSettings) (size size' : Nat)
    (owner repo : String) (branch : Option String) :
    run p { settings with concurrency := size } .never owner repo branch =
        run q { settings with concurrency := size' } .never owner repo branch ∧
      ∀ name tree, branchOf p owner repo branch = .ok name →
        p.listing owner repo name = .ok tree →
        (run p { settings with concurrency := size } .never owner repo branch).fetched =
            keptPaths settings tree ∧
          (keptPaths settings tree).Pairwise (· ≤ ·) := by
  constructor
  · have sameBranch := alike.branchOf_eq owner repo branch
    cases known : branchOf p owner repo branch with
    | error e =>
      have known' := sameBranch.symm.trans known
      rw [run_never_of_branch_error known, run_never_of_branch_error known']
    | ok name =>
      have known' := sameBranch.symm.trans known
      have listings := alike.listing owner repo name
      generalize listed : p.listing owner repo name = left at listings
      generalize listed' : q.listing owner repo name = right at listings
      cases listings with
      | entries perm =>
        have same : keptPaths settings _ = keptPaths settings _ :=
          FileSelector.kept_paths_perm perm
        rw [run_never known listed, run_never known' listed', keptPaths_concurrency,
          keptPaths_concurrency settings size', alike.contents, same]
      | fault e =>
        rw [run_never_of_listing_error known listed, run_never_of_listing_error known' listed']
  · intro name tree known listed
    rw [run_never known listed, keptPaths_concurrency]
    exact ⟨rfl, FileSelector.kept_paths_sorted⟩

/-- A listing with a path that stands in it twice, and the same listing backwards. -/
theorem run_independent_reversed :
    let tree := [ListingEntry.blob "b.py" 10, .blob "a.py" 20, .blob "a.py" 30, ⟨"d", .tree, none⟩]
    let provider : List ListingEntry → Provider := fun tree =>
      ⟨fun _ _ => .ok "main", fun _ _ _ => .ok tree, fun _ _ _ path =>
        if path = "a.py" then .ok "def f():\n  pass\n" else .error (.notFound path)⟩
    Alike (provider tree) (provider tree.reverse) ∧
      run (provider tree) { concurrency := 0 } .never "owner" "repo" none =
        run (provider tree.reverse) { concurrency := 2 } .never "owner" "repo" none := by
  intro tree provider
  have alike : Alike (provider tree) (provider tree.reverse) :=
    ⟨rfl, rfl, fun _ _ _ => .entries (List.reverse_perm tree).symm⟩
  exact ⟨alike, (run_independent alike {} 0 2 "owner" "repo" none).1⟩

end

end CodeAtlas.Build
