import CodeAtlas.Proofs.Graph.Identity
import CodeAtlas.Proofs.Repository.Build
import CodeAtlas.Proofs.Repository.Reference
import CodeAtlas.Proofs.Repository.Store
import CodeAtlas.Repository.Supply

/-!
# Graphs on request

A cache has one entry for a repository, whatever the branch. Each entry comes from a build that was
completed for its repository, with the branch that was asked for then; so a request is answered by
its own build, or by a kept one that is of its repository, of its branch and young enough.
-/

namespace CodeAtlas

/-! ### Names -/

namespace GraphStore

/-- Owners without a slash tell the names of their repositories apart. -/
theorem keyOf_inj {owner owner' repo repo' : String} (plain : '/' ∉ owner.toList)
    (plain' : '/' ∉ owner'.toList) (same : keyOf owner repo = keyOf owner' repo') :
    owner = owner' ∧ repo = repo' := by
  have texts := congrArg String.toList same
  simp only [keyOf, String.toList_append, List.append_assoc] at texts
  obtain ⟨owners, repos⟩ := cut_first plain plain' texts
  exact ⟨String.toList_inj.mp owners, String.toList_inj.mp repos⟩

end GraphStore

namespace Build

/-- A build gives a graph of the repository it was asked for, of the branch if one was named. -/
theorem run_named {p : Provider} {settings : BuildSettings} {cancel : Cancellation}
    {owner repo : String} {branch : Option String} {graph : RepoGraph}
    (done : (run p settings cancel owner repo branch).outcome = .ok graph) :
    graph.owner = owner ∧ graph.name = repo ∧ ∀ name, branch = some name → graph.branch = name := by
  obtain ⟨name, tree, known, -, -, rfl⟩ := exists_of_graph done
  refine ⟨rfl, rfl, ?_⟩
  rintro asked rfl
  exact (Except.ok.inj known).symm

end Build

namespace GraphSupply

/-! ### Requests -/

/-- A request, with what the provider serves for it, when the caller gives up, and the time that a
build takes. The owner has no slash. -/
structure Request where
  provider : Provider
  cancel : Cancellation
  owner : String
  repo : String
  branch : Option String
  took : Nat
  plain : '/' ∉ owner.toList

/-- The request that a reference stands for. -/
def Request.ofReference {reference : String} {r : RepoReference}
    (read : RepoReference.parse reference = .ok r) (provider : Provider) (cancel : Cancellation)
    (took : Nat) : Request :=
  ⟨provider, cancel, r.owner, r.repo, r.branch, took, RepoReference.parse_plain read⟩

/-- The build of a request. -/
def Request.build (r : Request) (settings : BuildSettings) : Build.Report :=
  Build.run r.provider settings r.cancel r.owner r.repo r.branch

/-- A supply with the time on the clock. -/
structure Session where
  now : Nat
  supply : GraphSupply

namespace Session

/-- What a request finds in the cache, and the cache after that. -/
def lookUp (s : Session) (r : Request) : Option RepoGraph × GraphStore :=
  s.supply.cache.get s.now r.owner r.repo r.branch

/-- The answer to a request, and the supply after it. -/
def graph (s : Session) (r : Request) : Answer × GraphSupply :=
  s.supply.graph r.provider r.cancel s.now r.owner r.repo r.branch r.took

/-- The three ways of a request: it finds a graph, it builds one, or its build fails. -/
inductive Handled (s : Session) (r : Request) : Answer × GraphSupply → Prop
  | hit {g : RepoGraph} (found : (s.lookUp r).1 = some g) :
      Handled s r (⟨.ok g, none, false⟩, { s.supply with cache := (s.lookUp r).2 })
  | built {g : RepoGraph} (missed : (s.lookUp r).1 = none)
      (done : (r.build s.supply.settings).outcome = .ok g) :
      Handled s r (⟨.ok g, some (r.build s.supply.settings),
          (s.lookUp r).2.stops (s.now + r.took)⟩,
        { s.supply with cache := (s.lookUp r).2.insert (s.now + r.took) g r.branch })
  | failed {e : Fault} (missed : (s.lookUp r).1 = none)
      (fault : (r.build s.supply.settings).outcome = .error e) :
      Handled s r (⟨.error e, some (r.build s.supply.settings), false⟩,
        { s.supply with cache := (s.lookUp r).2 })

theorem graph_handled (s : Session) (r : Request) : s.Handled r (s.graph r) := by
  unfold graph GraphSupply.graph
  cases read : s.supply.cache.get s.now r.owner r.repo r.branch with
  | mk answer after =>
    have cache : (s.lookUp r).2 = after := congrArg Prod.snd read
    cases answer with
    | some g =>
      have found : (s.lookUp r).1 = some g := congrArg Prod.fst read
      simpa only [cache] using Handled.hit found
    | none =>
      have missed : (s.lookUp r).1 = none := congrArg Prod.fst read
      dsimp only
      split
      · next g done =>
        simpa only [cache, Request.build] using Handled.built missed done
      · next e fault =>
        simpa only [cache, Request.build] using Handled.failed missed fault

/-- A graph that is found is the answer, and nothing but the cache has to do with it. -/
theorem graph_of_found {s : Session} {r : Request} {g : RepoGraph}
    (found : (s.lookUp r).1 = some g) :
    s.graph r = (⟨.ok g, none, false⟩, { s.supply with cache := (s.lookUp r).2 }) := by
  have ways := s.graph_handled r
  generalize s.graph r = result at ways ⊢
  cases ways with
  | hit found' =>
    rw [found] at found'
    cases found'
    rfl
  | built missed =>
    rw [found] at missed
    cases missed
  | failed missed =>
    rw [found] at missed
    cases missed

/-- Where a graph is found, requests for the same branch of the same repository are answered
alike. -/
theorem graph_of_alike {s : Session} {r r' : Request} {g : RepoGraph}
    (found : (s.lookUp r).1 = some g) (sameOwner : r'.owner = r.owner)
    (sameRepo : r'.repo = r.repo) (sameBranch : r'.branch = r.branch) :
    s.graph r' = s.graph r := by
  have same : s.lookUp r' = s.lookUp r := by
    rw [lookUp, sameOwner, sameRepo, sameBranch, lookUp]
  have found' : (s.lookUp r').1 = some g := same ▸ found
  rw [graph_of_found found', graph_of_found found, same]

/-- A supply answers as its cache does, given the builds. -/
theorem graph_eq_getElse (s : Session) (r : Request) :
    ((s.graph r).1.outcome, (s.graph r).2.cache) =
      s.supply.cache.getElse s.now r.owner r.repo r.branch
        (fun _ => (r.build s.supply.settings).outcome) r.took := by
  have ways := s.graph_handled r
  generalize s.graph r = result at ways ⊢
  cases ways with
  | hit found => rw [GraphStore.getElse_of_some found, lookUp]
  | built missed done => rw [GraphStore.getElse_of_none missed, done, lookUp]
  | failed missed fault => rw [GraphStore.getElse_of_none missed, fault, lookUp]

/-- It is stopped where its cache is. -/
theorem stopped_eq_stopsElse (s : Session) (r : Request) :
    (s.graph r).1.stopped =
      s.supply.cache.stopsElse s.now r.owner r.repo r.branch
        (fun _ => (r.build s.supply.settings).outcome) r.took := by
  have ways := s.graph_handled r
  generalize s.graph r = result at ways ⊢
  rw [Bool.eq_iff_iff, GraphStore.stopsElse_iff]
  cases ways with
  | hit found =>
    rw [lookUp] at found
    simp [found]
  | built missed done =>
    rw [lookUp] at missed
    simp [missed, done, lookUp]
  | failed missed fault =>
    simp [fault]

end Session

/-! ### Runs -/

/-- What happens to a supply. -/
inductive Action where
  | request (r : Request)
  | invalidate (owner repo : String)
  | wait (time : Nat)

/-- A build that gave a graph, and the moment at which it was completed. -/
structure Completed where
  request : Request
  graph : RepoGraph
  moment : Nat

namespace Session

/-- A session after an action. A build takes time only where it is needed. -/
def perform (s : Session) : Action → Session
  | .request r =>
    match (s.graph r).1.build with
    | none => ⟨s.now, (s.graph r).2⟩
    | some _ => ⟨s.now + r.took, (s.graph r).2⟩
  | .invalidate owner repo => ⟨s.now, (s.supply.invalidate owner repo).2⟩
  | .wait time => ⟨s.now + time, s.supply⟩

/-- The build that an action completes, if it does. -/
def completed (s : Session) : Action → List Completed
  | .request r =>
    match (s.graph r).1 with
    | ⟨.ok g, some _, _⟩ => [⟨r, g, s.now + r.took⟩]
    | _ => []
  | _ => []

/-- A session after actions. -/
def run (s : Session) (actions : List Action) : Session :=
  actions.foldl perform s

/-- The builds that a run completes, in order. -/
def builds : Session → List Action → List Completed
  | _, [] => []
  | s, action :: actions => s.completed action ++ (s.perform action).builds actions

end Session

/-- What is known of a session by its settings and the builds that were completed. -/
structure Traced (settings : BuildSettings) (ttl : Nat) (s : Session) (log : List Completed) :
    Prop where
  sameSettings : s.supply.settings = settings
  sameTtl : s.supply.cache.ttl = ttl
  sound : s.supply.cache.Sound
  genuine : ∀ b ∈ log, (b.request.build settings).outcome = .ok b.graph ∧ b.moment ≤ s.now
  /-- Each entry comes from a build and has its repository, its branch and its time. -/
  traced : ∀ x ∈ s.supply.cache.entries, ∃ b ∈ log,
    x = (GraphStore.keyOf b.request.owner b.request.repo,
      ⟨b.graph, b.request.branch, b.moment + ttl⟩)

section

variable {settings : BuildSettings} {ttl : Nat} {s : Session} {log : List Completed}

/-- Fewer entries at a later moment come from the same builds. -/
theorem Traced.fewer (known : Traced settings ttl s log) {s' : Session}
    (sameSettings : s'.supply.settings = s.supply.settings)
    (sameTtl : s'.supply.cache.ttl = s.supply.cache.ttl)
    (sameCapacity : s'.supply.cache.capacity = s.supply.cache.capacity)
    (fewer : s'.supply.cache.entries.Sublist s.supply.cache.entries) (later : s.now ≤ s'.now) :
    Traced settings ttl s' log where
  sameSettings := sameSettings.trans known.sameSettings
  sameTtl := sameTtl.trans known.sameTtl
  sound := known.sound.sublist sameCapacity fewer
  genuine b listed := ⟨(known.genuine b listed).1, (known.genuine b listed).2.trans later⟩
  traced x listed := known.traced x (fewer.subset listed)

theorem Traced.lookUp_keeps (known : Traced settings ttl s log) (r : Request) :
    GraphStore.Keeps s.now s.supply.cache (s.lookUp r).2 :=
  GraphStore.get_keeps known.sound.distinct

/-- A graph that was built and inserted is traced to its build. -/
theorem Traced.insert (known : Traced settings ttl s log) (r : Request) {g : RepoGraph}
    (done : (r.build s.supply.settings).outcome = .ok g) :
    Traced settings ttl
      ⟨s.now + r.took, { s.supply with cache := s.supply.cache.insert (s.now + r.took) g r.branch }⟩
      (log ++ [⟨r, g, s.now + r.took⟩]) := by
  rw [known.sameSettings] at done
  constructor
  · exact known.sameSettings
  · exact (congrArg GraphStore.ttl (GraphStore.insert_eq _ _ g r.branch)).trans known.sameTtl
  · exact known.sound.insert
  · intro b listed
    rcases List.mem_append.mp listed with old | new
    · obtain ⟨genuine, past⟩ := known.genuine b old
      exact ⟨genuine, past.trans (Nat.le_add_right _ _)⟩
    · rw [List.mem_singleton.mp new]
      exact ⟨done, Nat.le_refl _⟩
  · intro x listed
    rcases GraphStore.mem_of_mem_insert listed with before | rfl
    · obtain ⟨b, inLog, eq⟩ := known.traced x before
      exact ⟨b, List.mem_append_left _ inLog, eq⟩
    · refine ⟨_, List.mem_append_right _ (List.mem_singleton_self _), ?_⟩
      obtain ⟨owner, name, -⟩ := Build.run_named done
      rw [RepoGraph.key, owner, name, known.sameTtl]
      rfl

theorem Traced.request (known : Traced settings ttl s log) (r : Request) :
    Traced settings ttl (s.perform (.request r)) (log ++ s.completed (.request r)) := by
  have keeps := known.lookUp_keeps r
  unfold Session.perform Session.completed
  dsimp only
  generalize handled : s.graph r = result
  have ways := s.graph_handled r
  rw [handled] at ways
  cases ways with
  | hit found =>
    rw [List.append_nil]
    exact known.fewer rfl keeps.ttl keeps.capacity keeps.fewer (Nat.le_refl _)
  | built missed done =>
    have looked : Traced settings ttl ⟨s.now, { s.supply with cache := (s.lookUp r).2 }⟩ log :=
      known.fewer rfl keeps.ttl keeps.capacity keeps.fewer (Nat.le_refl _)
    exact looked.insert r done
  | failed missed fault =>
    rw [List.append_nil]
    exact known.fewer rfl keeps.ttl keeps.capacity keeps.fewer (Nat.le_add_right _ _)

theorem Traced.perform (known : Traced settings ttl s log) (action : Action) :
    Traced settings ttl (s.perform action) (log ++ s.completed action) := by
  cases action with
  | request r => exact known.request r
  | invalidate owner repo =>
    rw [show s.completed (.invalidate owner repo) = [] from rfl, List.append_nil]
    exact known.fewer rfl rfl rfl List.filter_sublist (Nat.le_refl _)
  | wait time =>
    rw [show s.completed (.wait time) = [] from rfl, List.append_nil]
    exact known.fewer rfl rfl rfl (List.Sublist.refl _) (Nat.le_add_right _ _)

theorem Traced.run (known : Traced settings ttl s log) (actions : List Action) :
    Traced settings ttl (s.run actions) (log ++ s.builds actions) := by
  induction actions generalizing s log with
  | nil =>
    rw [Session.builds, List.append_nil]
    exact known
  | cons action actions ih =>
    have rest := ih (known.perform action)
    rw [List.append_assoc] at rest
    exact rest

theorem traced_start (settings : BuildSettings) (cache : CacheSettings) (now : Nat) :
    Traced settings (cache.ttlSecs * 1000) ⟨now, .start settings cache⟩ [] where
  sameSettings := rfl
  sameTtl := rfl
  sound := GraphStore.sound_empty cache
  genuine _ listed := absurd listed List.not_mem_nil
  traced _ listed := absurd listed List.not_mem_nil

end

/-! ### Answers -/

/-- What holds of the answer to a request after a run that completed some builds. -/
structure Answers (settings : BuildSettings) (ttl : Nat) (s : Session) (log : List Completed)
    (r : Request) : Prop where
  /-- A graph that is returned is of the repository, and of the branch if one was named. -/
  named : ∀ g, (s.graph r).1.outcome = .ok g →
    g.owner = r.owner ∧ g.name = r.repo ∧ ∀ name, r.branch = some name → g.branch = name
  /-- Where something was built for the request, that is its answer. -/
  built : ∀ report, (s.graph r).1.build = some report →
    report = r.build settings ∧ (s.graph r).1.outcome = report.outcome
  /-- Where nothing was built, the graph is of a build that was completed for the repository less
  than the lifetime of an entry before; for a request without a branch, one without a branch. -/
  kept : (s.graph r).1.build = none → ∃ b ∈ log,
    (s.graph r).1.outcome = .ok b.graph ∧ (b.request.build settings).outcome = .ok b.graph ∧
      b.request.owner = r.owner ∧ b.request.repo = r.repo ∧
      b.moment ≤ s.now ∧ s.now < b.moment + ttl ∧ (r.branch = none → b.request.branch = none)
  /-- Nor does it matter then what the provider would serve, or whether the caller has given up. -/
  unasked : (s.graph r).1.build = none → ∀ r' : Request, r'.owner = r.owner → r'.repo = r.repo →
    r'.branch = r.branch → s.graph r' = s.graph r
  /-- Where the build fails, its fault is the answer, nothing is kept and no live entry is lost. -/
  failed : ∀ report e, (s.graph r).1.build = some report → report.outcome = .error e →
    (s.graph r).1.outcome = .error e ∧
      (s.graph r).2.cache.entries.Sublist s.supply.cache.entries ∧
      ∀ x ∈ s.supply.cache.entries, x.2.isLive s.now = true → x ∈ (s.graph r).2.cache.entries

section

variable {settings : BuildSettings} {ttl : Nat} {s : Session} {log : List Completed} {r : Request}

/-- What is found in the cache is of a build for the same repository, and serves the branch. -/
theorem Traced.found (known : Traced settings ttl s log) {g : RepoGraph}
    (found : (s.lookUp r).1 = some g) :
    ∃ b ∈ log, b.graph = g ∧ b.request.owner = r.owner ∧ b.request.repo = r.repo ∧
      s.now < b.moment + ttl ∧ (r.branch = none → b.request.branch = none) ∧
      ∀ name, r.branch = some name → g.branch = name := by
  obtain ⟨e, listed, live, answers, rfl⟩ :=
    (GraphStore.get_eq_some_iff known.sound.distinct).mp found
  obtain ⟨b, inLog, eq⟩ := known.traced _ listed
  obtain ⟨key, rfl⟩ := Prod.mk.inj eq
  obtain ⟨owner, repo⟩ := GraphStore.keyOf_inj b.request.plain r.plain key.symm
  refine ⟨b, inLog, rfl, owner, repo, of_decide_eq_true live, ?_, ?_⟩
  · intro default
    rw [default] at answers
    exact Option.isNone_iff_eq_none.mp answers
  · intro name asked
    rw [asked] at answers
    exact beq_iff_eq.mp answers

/-- Answers from the cache. -/
theorem Traced.answers_found (known : Traced settings ttl s log) {g : RepoGraph}
    (found : (s.lookUp r).1 = some g) : Answers settings ttl s log r := by
  have handled := Session.graph_of_found found
  obtain ⟨b, inLog, rfl, owner, repo, young, unnamed, named⟩ := known.found found
  obtain ⟨genuine, past⟩ := known.genuine b inLog
  obtain ⟨owner', repo', -⟩ := Build.run_named genuine
  constructor
  · intro g returned
    rw [handled] at returned
    cases returned
    exact ⟨owner'.trans owner, repo'.trans repo, named⟩
  · intro report built
    rw [handled] at built
    cases built
  · intro _
    rw [handled]
    exact ⟨b, inLog, rfl, genuine, owner, repo, past, young, unnamed⟩
  · intro _ r' sameOwner sameRepo sameBranch
    exact Session.graph_of_alike found sameOwner sameRepo sameBranch
  · intro report e built
    rw [handled] at built
    cases built

/-- Answers by a build that gave a graph. -/
theorem answers_built {g : RepoGraph} {stopped : Bool} {after : GraphSupply}
    (handled : s.graph r = (⟨.ok g, some (r.build settings), stopped⟩, after))
    (done : (r.build settings).outcome = .ok g) : Answers settings ttl s log r := by
  constructor <;> rw [handled]
  · intro g returned
    cases returned
    exact Build.run_named done
  · intro report built
    cases built
    exact ⟨rfl, done.symm⟩
  · intro kept
    cases kept
  · intro kept
    cases kept
  · intro report e built fault
    cases built
    rw [done] at fault
    cases fault

/-- Answers by a build that failed. -/
theorem Traced.answers_failed (known : Traced settings ttl s log) {e : Fault}
    (handled : s.graph r =
      (⟨.error e, some (r.build settings), false⟩, { s.supply with cache := (s.lookUp r).2 }))
    (fault : (r.build settings).outcome = .error e) : Answers settings ttl s log r := by
  have keeps := known.lookUp_keeps r
  constructor <;> rw [handled]
  · intro g returned
    cases returned
  · intro report built
    cases built
    exact ⟨rfl, fault.symm⟩
  · intro kept
    cases kept
  · intro kept
    cases kept
  · intro report e built fault'
    cases built
    exact ⟨fault.symm.trans fault', keeps.fewer, keeps.live⟩

theorem Traced.answers (known : Traced settings ttl s log) (r : Request) :
    Answers settings ttl s log r := by
  have ways := s.graph_handled r
  generalize handled : s.graph r = result at ways
  cases ways with
  | hit found => exact known.answers_found found
  | built missed done =>
    rw [known.sameSettings] at handled done
    exact answers_built handled done
  | failed missed fault =>
    rw [known.sameSettings] at handled fault
    exact known.answers_failed handled fault

end

/-- After every run, every request is answered so. -/
theorem run_answers (settings : BuildSettings) (cache : CacheSettings) (start : Nat)
    (actions : List Action) (r : Request) :
    Answers settings (cache.ttlSecs * 1000) ((Session.mk start (.start settings cache)).run actions)
      ((Session.mk start (.start settings cache)).builds actions) r := by
  have known := (traced_start settings cache start).run actions
  rw [List.nil_append] at known
  exact known.answers r

end GraphSupply

end CodeAtlas
