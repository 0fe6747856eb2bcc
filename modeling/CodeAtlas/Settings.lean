import CodeAtlas.Fault
import CodeAtlas.Graph.Record

/-!
Settings: the limits and constants of building, caching, searching and answering, with their
defaults, and how they are read from a configuration file's values. A section or a field that is
left out keeps its default.
-/

namespace CodeAtlas

/-- What becomes of a call whose name fits several symbols of the whole repository. -/
inductive CandidateRule where
  /-- One symbol is taken, the one whose id comes first. -/
  | firstMatch
  /-- Every symbol is taken, with little certainty. -/
  | splitAll
  deriving Repr, DecidableEq, Inhabited

namespace CandidateRule

/-- The name of a rule in a configuration file. -/
def name : CandidateRule → String
  | firstMatch => "first_match"
  | splitAll => "split_all"

/-- The rule with a name. -/
def ofName? (s : String) : Option CandidateRule :=
  [firstMatch, splitAll].find? (·.name == s)

end CandidateRule

/-- Limits and filters of building a graph. -/
structure BuildSettings where
  maxFiles : Nat := 150
  /-- The largest file that is read, in bytes. -/
  maxFileSize : Nat := 51200
  /-- How many files are fetched in one batch. -/
  concurrency : Nat := 5
  /-- Directories into which the build never looks. -/
  noiseDirs : List String :=
    ["node_modules", "dist", "build", ".git", ".next", "out", "coverage", "__pycache__", ".venv",
      "venv", "vendor", "target"]
  /-- Glob patterns of further paths to skip. -/
  skipPatterns : List String := []
  ambiguity : CandidateRule := .firstMatch
  fetchTimeoutSecs : Nat := 30
  fetchRetries : Nat := 2
  deriving Repr, DecidableEq, Inhabited

/-- How long and how many graphs are kept. -/
structure CacheSettings where
  ttlSecs : Nat := 1800
  capacity : Nat := 20
  deriving Repr, DecidableEq, Inhabited

/-- Constants of the search scores. -/
structure SearchSettings where
  bm25K1 : Float := 1.2
  bm25B : Float := 0.75
  rrfK : Nat := 60
  deriving Repr, Inhabited

/-- Limits of a conversation. -/
structure AgentSettings where
  maxRounds : Nat := 5
  maxTokens : Nat := 2048
  timeoutSecs : Nat := 120
  deriving Repr, DecidableEq, Inhabited

/-- Which language model is asked. -/
structure ModelSettings where
  provider : String := "openai"
  model : String := "gpt-4o"
  apiKey : Option String := none
  baseUrl : Option String := none
  deriving Repr, DecidableEq, Inhabited

/-- How the repositories' host is reached. -/
structure HostSettings where
  token : Option String := none
  apiUrl : String := "https://api.github.com"
  deriving Repr, DecidableEq, Inhabited

/-- All settings, by section. -/
structure Settings where
  build : BuildSettings := {}
  cache : CacheSettings := {}
  search : SearchSettings := {}
  agent : AgentSettings := {}
  model : ModelSettings := {}
  host : HostSettings := {}
  deriving Repr, Inhabited

/-- The name of a choice, or a table whose only field is the choice and holds nothing. -/
def Json.tableChoice? : Json → Option String
  | .obj [(s, .obj [])] => some s
  | .obj [(s, .arr [])] => some s
  | j => j.choice?

/-- Reads a section whose fields have the given names. Of a section that is an array the items
beyond the fields are not looked at. -/
def Json.section? (names : List (List String)) : Json → Option Json.Record
  | .arr items => (Json.arr (items.take names.length)).record? names
  | j => j.record? names

namespace BuildSettings

/-- The names of the fields, in their order. -/
def fieldNames : List (List String) :=
  [["max_files"], ["max_file_size"], ["concurrency"], ["noise_dirs"], ["skip_patterns"],
    ["ambiguity"], ["fetch_timeout_secs"], ["fetch_retries"]]

/-- Reads the section of the builds. -/
def ofJson? (j : Json) : Option BuildSettings := do
  let r ← j.section? fieldNames
  let d : BuildSettings := {}
  some {
    maxFiles := ← r.withDefault 0 d.maxFiles (Json.natBelow? countBound)
    maxFileSize := ← r.withDefault 1 d.maxFileSize (Json.natBelow? countBound)
    concurrency := ← r.withDefault 2 d.concurrency (Json.natBelow? countBound)
    noiseDirs := ← r.withDefault 3 d.noiseDirs (Json.list? Json.str?)
    skipPatterns := ← r.withDefault 4 d.skipPatterns (Json.list? Json.str?)
    ambiguity := ← r.withDefault 5 d.ambiguity fun k =>
      k.tableChoice?.bind CandidateRule.ofName?
    fetchTimeoutSecs := ← r.withDefault 6 d.fetchTimeoutSecs (Json.natBelow? countBound)
    fetchRetries := ← r.withDefault 7 d.fetchRetries (Json.natBelow? lineBound) }

/-- The section of the builds, with every field. -/
def toJson (s : BuildSettings) : Json :=
  .obj [("max_files", Json.ofNat s.maxFiles), ("max_file_size", Json.ofNat s.maxFileSize),
    ("concurrency", Json.ofNat s.concurrency), ("noise_dirs", Json.ofStrings s.noiseDirs),
    ("skip_patterns", Json.ofStrings s.skipPatterns), ("ambiguity", .str s.ambiguity.name),
    ("fetch_timeout_secs", Json.ofNat s.fetchTimeoutSecs),
    ("fetch_retries", Json.ofNat s.fetchRetries)]

end BuildSettings

namespace CacheSettings

/-- Reads the section of the cache. -/
def ofJson? (j : Json) : Option CacheSettings := do
  let r ← j.section? [["ttl_secs"], ["capacity"]]
  let d : CacheSettings := {}
  some {
    ttlSecs := ← r.withDefault 0 d.ttlSecs (Json.natBelow? countBound)
    capacity := ← r.withDefault 1 d.capacity (Json.natBelow? countBound) }

/-- The section of the cache, with every field. -/
def toJson (s : CacheSettings) : Json :=
  .obj [("ttl_secs", Json.ofNat s.ttlSecs), ("capacity", Json.ofNat s.capacity)]

end CacheSettings

namespace SearchSettings

/-- Reads the section of the search. -/
def ofJson? (j : Json) : Option SearchSettings := do
  let r ← j.section? [["bm25_k1"], ["bm25_b"], ["rrf_k"]]
  let d : SearchSettings := {}
  some {
    bm25K1 := ← r.withDefault 0 d.bm25K1 Json.float?
    bm25B := ← r.withDefault 1 d.bm25B Json.float?
    rrfK := ← r.withDefault 2 d.rrfK (Json.natBelow? countBound) }

/-- The section of the search, with every field. -/
def toJson (s : SearchSettings) : Json :=
  .obj [("bm25_k1", .float s.bm25K1), ("bm25_b", .float s.bm25B), ("rrf_k", Json.ofNat s.rrfK)]

end SearchSettings

namespace AgentSettings

/-- Reads the section of the conversations. -/
def ofJson? (j : Json) : Option AgentSettings := do
  let r ← j.section? [["max_rounds"], ["max_tokens"], ["timeout_secs"]]
  let d : AgentSettings := {}
  some {
    maxRounds := ← r.withDefault 0 d.maxRounds (Json.natBelow? countBound)
    maxTokens := ← r.withDefault 1 d.maxTokens (Json.natBelow? lineBound)
    timeoutSecs := ← r.withDefault 2 d.timeoutSecs (Json.natBelow? countBound) }

/-- The section of the conversations, with every field. -/
def toJson (s : AgentSettings) : Json :=
  .obj [("max_rounds", Json.ofNat s.maxRounds), ("max_tokens", Json.ofNat s.maxTokens),
    ("timeout_secs", Json.ofNat s.timeoutSecs)]

end AgentSettings

/-- An optional string, `null` where it is absent. -/
def Json.ofOption : Option String → Json
  | some s => .str s
  | none => .null

namespace ModelSettings

/-- Reads the section of the language model. A key or an address that is left out is absent. -/
def ofJson? (j : Json) : Option ModelSettings := do
  let r ← j.section? [["provider"], ["model"], ["api_key"], ["base_url"]]
  let d : ModelSettings := {}
  some {
    provider := ← r.withDefault 0 d.provider Json.str?
    model := ← r.withDefault 1 d.model Json.str?
    apiKey := ← r.optional 2 Json.str?
    baseUrl := ← r.optional 3 Json.str? }

/-- The section of the language model, with every field. -/
def toJson (s : ModelSettings) : Json :=
  .obj [("provider", .str s.provider), ("model", .str s.model),
    ("api_key", Json.ofOption s.apiKey), ("base_url", Json.ofOption s.baseUrl)]

end ModelSettings

namespace HostSettings

/-- Reads the section of the host. A token that is left out is absent. -/
def ofJson? (j : Json) : Option HostSettings := do
  let r ← j.section? [["token"], ["api_url"]]
  let d : HostSettings := {}
  some {
    token := ← r.optional 0 Json.str?
    apiUrl := ← r.withDefault 1 d.apiUrl Json.str? }

/-- The section of the host, with every field. -/
def toJson (s : HostSettings) : Json :=
  .obj [("token", Json.ofOption s.token), ("api_url", .str s.apiUrl)]

end HostSettings

namespace Settings

/-- Reads all sections, each of which may be left out. -/
def ofJson? (j : Json) : Option Settings := do
  let r ← j.record? [["build"], ["cache"], ["search"], ["agent"], ["llm"], ["github"]]
  some {
    build := ← r.withDefault 0 {} BuildSettings.ofJson?
    cache := ← r.withDefault 1 {} CacheSettings.ofJson?
    search := ← r.withDefault 2 {} SearchSettings.ofJson?
    agent := ← r.withDefault 3 {} AgentSettings.ofJson?
    model := ← r.withDefault 4 {} ModelSettings.ofJson?
    host := ← r.withDefault 5 {} HostSettings.ofJson? }

/-- All sections. -/
def toJson (s : Settings) : Json :=
  .obj [("build", s.build.toJson), ("cache", s.cache.toJson), ("search", s.search.toJson),
    ("agent", s.agent.toJson), ("llm", s.model.toJson), ("github", s.host.toJson)]

/-- The first setting that must not be zero and is. -/
def zeroSetting? (s : Settings) : Option String :=
  ([("build.concurrency", s.build.concurrency), ("cache.capacity", s.cache.capacity),
    ("agent.max_rounds", s.agent.maxRounds)].find? (·.2 == 0)).map (·.1)

/-- Accepts settings in which no limit that must be positive is zero. -/
def validate (s : Settings) : Except Fault Settings :=
  match s.zeroSetting? with
  | some setting => .error (.config (setting ++ " must be at least 1"))
  | none => .ok s

end Settings

end CodeAtlas
