import CodeAtlas.Repository.Build
import CodeAtlas.Repository.Store

/-!
Graphs on request: from the cache where it can answer, else by a build.
-/

namespace CodeAtlas

/-- A cache with the settings of the builds that fill it. -/
structure GraphSupply where
  settings : BuildSettings
  cache : GraphStore

namespace GraphSupply

/-- A supply that has built nothing yet. -/
def start (build : BuildSettings) (cache : CacheSettings) : GraphSupply :=
  ⟨build, .empty cache⟩

/-- The answer to a request, and the build that was made for it, if one was. -/
structure Answer where
  outcome : Except Fault RepoGraph
  build : Option Build.Report
  /-- Whether the caller is stopped, since the graph that was built cannot be kept. The outcome does
  not reach the caller then. -/
  stopped : Bool

/-- Answers a request from the cache, else by a build, which may take some time. -/
def graph (s : GraphSupply) (p : Provider) (cancel : Cancellation) (now : Nat)
    (owner repo : String) (branch : Option String) (took : Nat := 0) : Answer × GraphSupply :=
  match s.cache.get now owner repo branch with
  | (some graph, cache) => (⟨.ok graph, none, false⟩, { s with cache })
  | (none, cache) =>
    let report := Build.run p s.settings cancel owner repo branch
    match report.outcome with
    | .ok graph =>
      (⟨.ok graph, some report, cache.stops (now + took)⟩,
        { s with cache := cache.insert (now + took) graph branch })
    | .error e => (⟨.error e, some report, false⟩, { s with cache })

/-- Drops the graph of a repository; whether there was one comes with the service. -/
def invalidate (s : GraphSupply) (owner repo : String) : Bool × GraphSupply :=
  let (found, cache) := s.cache.invalidate owner repo
  (found, { s with cache })

end GraphSupply

end CodeAtlas
