import CodeAtlas.Assembly.Basic
import CodeAtlas.Repository.Selection

/-!
Building the graph of a repository from a provider: its listing is filtered, the files are fetched
in batches, and what could be fetched is read. A file that cannot be fetched stays in the graph
without symbols. The caller may give up before the build or during a fetch; that is noticed before
the next batch at the latest, and not at all where there is none.
-/

namespace CodeAtlas

/-- Where listings and texts of repositories come from. -/
structure Provider where
  /-- The default branch of a repository, by owner and name. -/
  defaultBranch : String → String → Except Fault String
  /-- The listing of a repository at a branch. -/
  listing : String → String → String → Except Fault (List ListingEntry)
  /-- The text of a file, by owner, name, branch and path. -/
  contents : String → String → String → String → Except Fault String

/-- When the caller gives up. -/
inductive Cancellation where
  | never
  /-- Before the build. It is left to chance whether that is noticed at once or the answers to the
  questions for the branch and for the listing are still taken. -/
  | beforeStart (branchTaken : Bool := false) (listingTaken : Bool := false)
  /-- During the fetch of that number, counted from one. -/
  | duringFetch (number : Nat)
  deriving Repr, DecidableEq, Inhabited

namespace Build

/-- Whether the caller has given up after so many fetches. -/
def givenUp : Cancellation → Nat → Bool
  | .never, _ => false
  | .beforeStart .., _ => true
  | .duringFetch number, fetched => decide (1 ≤ number) && decide (number ≤ fetched)

/-- Cuts a list into batches of a given size, the last of which may be smaller. -/
def batches {α : Type} (size : Nat) : List α → List (List α)
  | [] => []
  | a :: rest => (a :: rest).take (size + 1) :: batches size (rest.drop size)
termination_by items => items.length
decreasing_by simp only [List.length_drop, List.length_cons]; omega

/-- The end of a build: its graph or fault, and the paths that were fetched, in order. -/
structure Report where
  outcome : Except Fault RepoGraph
  fetched : List String

/-- What was read of a fetched file. -/
def reading? (content : String → Except Fault String) (path : String) : Option FileReading :=
  match content path with
  | .ok text => FileReading.ofSource? path text
  | .error _ => FileReading.unread? path

/-- Fetches the batches in turn, `fetched` files having been fetched before; none where the caller
has given up before a batch. The paths that were fetched come with it. -/
def fetchAll (cancel : Cancellation) (content : String → Except Fault String) :
    Nat → List (List String) → Option (List FileReading) × List String
  | _, [] => (some [], [])
  | fetched, batch :: rest =>
    if givenUp cancel fetched then (none, [])
    else
      let (files, paths) := fetchAll cancel content (fetched + batch.length) rest
      (files.map (batch.filterMap (reading? content) ++ ·), batch ++ paths)

/-- Whether it is noticed at the question for the branch that the caller has given up. Where a branch
is named there is no such question. -/
def noticedAtBranch : Cancellation → Option String → Bool
  | .beforeStart branchTaken _, none => !branchTaken
  | _, _ => false

/-- Whether it is noticed at the question for the listing that the caller has given up. -/
def noticedAtListing : Cancellation → Bool
  | .beforeStart _ listingTaken => !listingTaken
  | _ => false

/-- The branch of a build: the one asked for, else the repository's default. -/
def branchOf (p : Provider) (owner repo : String) : Option String → Except Fault String
  | some branch => .ok branch
  | none => p.defaultBranch owner repo

/-- The paths that a build fetches, in order. -/
def keptPaths (settings : BuildSettings) (tree : List ListingEntry) : List String :=
  (((FileSelector.ofSettings settings).filter tree).kept).map ListingEntry.path

/-- The answer to a question, unless it is noticed first that the caller has given up. -/
def ask {α : Type} (noticed : Bool) (answer : Except Fault α) : Except Fault α :=
  if noticed then .error .cancelled else answer

/-- Builds the graph of a repository, on its default branch if none is given. -/
def run (p : Provider) (settings : BuildSettings) (cancel : Cancellation) (owner repo : String)
    (branch : Option String) : Report :=
  match ask (noticedAtBranch cancel branch) (branchOf p owner repo branch) with
  | .error e => ⟨.error e, []⟩
  | .ok branch =>
    match ask (noticedAtListing cancel) (p.listing owner repo branch) with
    | .error e => ⟨.error e, []⟩
    | .ok tree =>
      let batches := batches (settings.concurrency - 1) (keptPaths settings tree)
      match fetchAll cancel (p.contents owner repo branch) 0 batches with
      | (none, fetched) => ⟨.error .cancelled, fetched⟩
      | (some files, fetched) =>
        ⟨.ok (Assembly.build owner repo branch files settings.ambiguity), fetched⟩

end Build

end CodeAtlas
