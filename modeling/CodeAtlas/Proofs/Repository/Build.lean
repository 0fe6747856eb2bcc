import CodeAtlas.Repository.Build

/-!
# How a build ends

A build that has got its branch and its listing fetches the kept paths batch by batch and ends with
what that leaves. A build that ends in a graph has come that far and has fetched every batch, even if
its caller has given up.
-/

namespace CodeAtlas.Build

/-! ### Batches -/

theorem flatten_batches {α : Type} (size : Nat) (items : List α) :
    (batches size items).flatten = items := by
  induction items using batches.induct size with
  | case1 => rw [batches, List.flatten_nil]
  | case2 a rest ih =>
    rw [batches, List.flatten_cons, ih, List.take_succ_cons, List.cons_append,
      List.take_append_drop]

/-- Batches that are not given up fetch all their paths and read what they can. -/
theorem fetchAll_never (content : String → Except Fault String) (fetched : Nat)
    (batches : List (List String)) :
    fetchAll .never content fetched batches =
      (some (batches.flatten.filterMap (reading? content)), batches.flatten) := by
  induction batches generalizing fetched with
  | nil => rfl
  | cons batch rest ih =>
    have goesOn : givenUp .never fetched = false := rfl
    simp only [fetchAll, goesOn, ih, List.flatten_cons, List.filterMap_append, Option.map_some,
      Bool.false_eq_true, if_false]

/-- Batches that are fetched to the end are fetched as if the caller had waited. -/
theorem fetchAll_of_done {cancel : Cancellation} {content : String → Except Fault String}
    {fetched : Nat} {batches : List (List String)} {files : List FileReading}
    (done : (fetchAll cancel content fetched batches).1 = some files) :
    fetchAll cancel content fetched batches = fetchAll .never content fetched batches := by
  induction batches generalizing fetched files with
  | nil => rfl
  | cons batch rest ih =>
    by_cases stops : givenUp cancel fetched = true
    · simp [fetchAll, stops] at done
    · simp only [fetchAll, stops, Bool.false_eq_true, if_false] at done ⊢
      obtain ⟨later, doneLater, -⟩ := Option.map_eq_some_iff.mp done
      rw [ih doneLater]
      rfl

/-! ### Builds -/

section

variable {p : Provider} {settings : BuildSettings} {owner repo : String} {branch : Option String}

/-- What is answered is the answer. -/
theorem ask_eq_ok {α : Type} {noticed : Bool} {answer : Except Fault α} {a : α}
    (asked : ask noticed answer = .ok a) : answer = .ok a := by
  cases noticed with
  | true => cases asked
  | false => exact asked

/-- The end of a build that has got its branch and its listing. -/
theorem run_of_answered {cancel : Cancellation} {name : String} {tree : List ListingEntry}
    {files : Option (List FileReading)} {fetched : List String}
    (fetches : fetchAll cancel (p.contents owner repo name) 0
      (batches (settings.concurrency - 1) (keptPaths settings tree)) = (files, fetched))
    (known : ask (noticedAtBranch cancel branch) (branchOf p owner repo branch) = .ok name)
    (listed : ask (noticedAtListing cancel) (p.listing owner repo name) = .ok tree) :
    run p settings cancel owner repo branch =
      ⟨files.elim (.error .cancelled) fun files =>
        .ok (Assembly.build owner repo name files settings.ambiguity), fetched⟩ := by
  simp only [run, known, listed, fetches]
  cases files <;> rfl

/-- The end of a build that is not given up, whose branch and listing are known. -/
theorem run_never {name : String} {tree : List ListingEntry}
    (known : branchOf p owner repo branch = .ok name) (listed : p.listing owner repo name = .ok tree) :
    run p settings .never owner repo branch =
      ⟨.ok (Assembly.build owner repo name
        ((keptPaths settings tree).filterMap (reading? (p.contents owner repo name)))
        settings.ambiguity), keptPaths settings tree⟩ := by
  have fetches := fetchAll_never (p.contents owner repo name) 0
    (batches (settings.concurrency - 1) (keptPaths settings tree))
  rw [flatten_batches] at fetches
  exact run_of_answered fetches known listed

/-- A build that is not given up and does not get its branch ends with that fault. -/
theorem run_never_of_branch_error {e : Fault} (unknown : branchOf p owner repo branch = .error e) :
    run p settings .never owner repo branch = ⟨.error e, []⟩ := by
  have unknown' : ask (noticedAtBranch .never branch) (branchOf p owner repo branch) = .error e :=
    unknown
  simp only [run, unknown']

/-- A build that is not given up and does not get its listing ends with that fault. -/
theorem run_never_of_listing_error {name : String} {e : Fault}
    (known : branchOf p owner repo branch = .ok name)
    (unlisted : p.listing owner repo name = .error e) :
    run p settings .never owner repo branch = ⟨.error e, []⟩ := by
  have known' : ask (noticedAtBranch .never branch) (branchOf p owner repo branch) = .ok name :=
    known
  have unlisted' : ask (noticedAtListing .never) (p.listing owner repo name) = .error e := unlisted
  simp only [run, known', unlisted']

/-- A build with a graph has got its branch and its listing, and its graph is made of all the kept
paths, all of which it has fetched. -/
theorem exists_of_graph {cancel : Cancellation} {g : RepoGraph}
    (built : (run p settings cancel owner repo branch).outcome = .ok g) :
    ∃ name tree, branchOf p owner repo branch = .ok name ∧ p.listing owner repo name = .ok tree ∧
      (run p settings cancel owner repo branch).fetched = keptPaths settings tree ∧
      g = Assembly.build owner repo name
        ((keptPaths settings tree).filterMap (reading? (p.contents owner repo name)))
        settings.ambiguity := by
  cases known : ask (noticedAtBranch cancel branch) (branchOf p owner repo branch) with
  | error e => simp [run, known] at built
  | ok name =>
    cases listed : ask (noticedAtListing cancel) (p.listing owner repo name) with
    | error e => simp [run, known, listed] at built
    | ok tree =>
      cases fetches : fetchAll cancel (p.contents owner repo name) 0
          (batches (settings.concurrency - 1) (keptPaths settings tree)) with
      | mk files fetched =>
        have report := run_of_answered fetches known listed
        rw [report] at built ⊢
        cases files with
        | none => cases built
        | some files =>
          rw [fetchAll_of_done (congrArg Prod.fst fetches), fetchAll_never,
            flatten_batches] at fetches
          obtain ⟨read, rfl⟩ := Prod.mk.inj fetches
          obtain rfl := Option.some.inj read
          exact ⟨name, tree, ask_eq_ok known, ask_eq_ok listed, rfl, (Except.ok.inj built).symm⟩

end

end CodeAtlas.Build
