import CodeAtlas.CommandLine.Arguments
import CodeAtlas.CommandLine.Text
import CodeAtlas.Configuration
import CodeAtlas.Dialogue.Chat
import CodeAtlas.Disk.Listing
import CodeAtlas.Json.Printer
import CodeAtlas.Repository.Supply

/-!
The commands: from what the arguments say and what is on the disk to what is written and the exit
code. Arguments that say nothing end with code 2, every other failure with code 1.
-/

namespace CodeAtlas

/-- What a command may use. -/
structure Environment where
  disk : Disk
  /-- The token for hosted repositories, where the settings give none. -/
  hostToken : Option String
  /-- The key for the language model, where the settings give none. -/
  modelKey : Option String
  /-- Whether output goes to a terminal that wants colours. -/
  wantsColor : Bool
  /-- Hosted repositories, for a credential. -/
  host : Settings → Credential → Provider
  model : ModelSettings → LanguageModel

/-- What a command leaves behind. -/
structure CommandOutcome where
  exitCode : Nat
  output : String
  /-- What is said about a failure. -/
  complaint : String
  /-- A file that is written, by its path and text. -/
  written : Option (String × String)
  deriving Repr, DecidableEq

namespace CommandOutcome

/-- The outcome of a command that has written an answer. -/
def success (output : String) : CommandOutcome :=
  ⟨0, output, "", none⟩

/-- The outcome of a command that has failed. -/
def failure (complaint : String) : CommandOutcome :=
  ⟨1, "", complaint, none⟩

/-- The outcome for arguments that say nothing. -/
def misuse : CommandOutcome :=
  ⟨2, "", "unrecognised arguments", none⟩

/-- The outcome of a program that is stopped at the end of the clock. -/
def stopped : CommandOutcome :=
  ⟨101, "", "overflow when adding duration to instant", none⟩

end CommandOutcome

namespace CommandLine

/-- The configuration file that is read where none is named. -/
def configName : String :=
  ".cartograph.toml"

/-- The text of a file, as a fault if it cannot be read. -/
def readFile (d : Disk) (path : String) : Except Fault String :=
  (d.read path).mapError fun e => .io e.message

/-- The settings of a configuration file, or the default ones where none is named and none is
there. -/
def loadSettings (d : Disk) : Option String → Except Fault Settings
  | some path => (readFile d path).bind Settings.parse
  | none =>
    if (d.find? configName).isSome then (readFile d configName).bind Settings.parse else .ok {}

/-- The settings with the secrets that the environment gives. -/
def withSecrets (env : Environment) (s : Settings) : Settings :=
  { s with
    host := { s.host with token := s.host.token.or env.hostToken }
    model := { s.model with apiKey := s.model.apiKey.or env.modelKey } }

/-- The settings with what the options say. -/
def withOptions (o : SourceOptions) (s : Settings) : Settings :=
  { s with
    build := { s.build with
      maxFiles := o.maxFiles.getD s.build.maxFiles
      ambiguity := o.ambiguity.getD s.build.ambiguity } }

/-- The repository that the options mean: one by reference, else a directory. -/
def sourceOf (d : Disk) (o : SourceOptions) : Except Fault RepoOrigin :=
  match o.repo with
  | some reference => (RepoReference.parse reference).map .hosted
  | none => .ok (LocalDirectory.source ⟨d, o.path⟩)

/-- The provider of a repository. -/
def providerOf (env : Environment) (s : Settings) : RepoOrigin → Provider
  | .directory path _ => LocalDirectory.provider ⟨env.disk, path⟩
  | .hosted r => env.host s ((RepoOrigin.hosted r).credential s.host.token)

/-- What a new supply answers to the request for the repository that the options mean. -/
def repositoryGraph (env : Environment) (now : Nat) (o : SourceOptions) (s : Settings) :
    Except Fault GraphSupply.Answer :=
  (sourceOf env.disk o).map fun source =>
    ((GraphSupply.start s.build s.cache).graph (providerOf env s source) .never now source.owner
      source.repo source.branch).1

/-- Writes an answer in the form that is wanted. -/
def answer (format : AnswerForm) (record : Json) (markdown text : String) : CommandOutcome :=
  match format with
  | .json => .success (record.pretty ++ "\n")
  | .markdown => .success markdown
  | .text => .success text

/-- Runs a command on the graph that it asks for. -/
def onGraph (env : Environment) (now : Nat) (o : SourceOptions) (s : Settings)
    (use : Settings → RepoGraph → Except Fault CommandOutcome) : CommandOutcome :=
  let s := withOptions o s
  match repositoryGraph env now o s with
  | .error e => .failure e.message
  | .ok reply =>
    if reply.stopped then .stopped
    else
      match reply.outcome.bind (use s) with
      | .ok outcome => outcome
      | .error e => .failure e.message

/-- The results of a search of the kind that is wanted. -/
def searchResults (s : Settings) (g : RepoGraph) (query : String) (limit : Nat) :
    SearchKind → List (Search.Result Float) :=
  let engine := Search.Engine.ofNodes g.nodes
  let constants : Search.Constants Float := ⟨s.search.bm25K1, s.search.bm25B, s.search.rrfK⟩
  fun
    | .hybrid => engine.search constants query limit
    | .bm25 => engine.searchByTerms constants query limit
    | .semantic => engine.searchByOverlap query limit

/-- The record of the tool calls of a conversation, a line for each. -/
def traceText (r : ChatOutcome) : String :=
  String.join (r.toolCalls.map fun t =>
    "[round " ++ toString t.round ++ "] " ++ t.name ++ " " ++ t.arguments ++
      (if t.isError then " (error)" else "") ++ "\n") ++
    if r.toolCalls.isEmpty then "" else "\n"

/-- What is written of a conversation that has ended. -/
def chatOutcome (format : AnswerForm) (showTrace : Bool) (r : ChatOutcome) : CommandOutcome :=
  match format with
  | .json => .success (r.toJson.pretty ++ "\n")
  | _ => { CommandOutcome.success (r.message.content ++ "\n") with
      complaint := if showTrace then traceText r else "" }

/-- Has a question answered by a language model. -/
def chat (env : Environment) (now : Nat) (format : AnswerForm) (question : String)
    (showTrace : Bool) (o : SourceOptions) (s : Settings) : CommandOutcome :=
  if s.model.apiKey.isNone && s.model.baseUrl.isNone then
    .failure ("No API key configured for LLM provider '" ++ s.model.provider ++ "'")
  else
    onGraph env now o s fun s g =>
      ((Chat.run .standard (.ofGraph g s.search) s.agent (env.model s.model) false
        [.ofText .user question]).outcome).map (chatOutcome format showTrace)

/-- Writes a configuration file, unless there is one. -/
def init (d : Disk) : CommandOutcome :=
  if (d.find? configName).isSome then .failure (configName ++ " already exists")
  else
    { CommandOutcome.success "Created .cartograph.toml with default configuration\n" with
      written := some (configName, TerminalText.template) }

/-- Runs a command with its settings. -/
def perform (env : Environment) (now : Nat) (i : Invocation) (s : Settings) : CommandOutcome :=
  match i.command with
  | .welcome =>
    .success (TerminalText.welcome (match i.color with
      | .always => true
      | .never => false
      | .auto => env.wantsColor))
  | .build o =>
    onGraph env now o s fun _ g =>
      .ok (answer i.format g.toJson (Summary.ofGraph g).markdown (TerminalText.build g))
  | .search query limit mode o =>
    onGraph env now o s fun s g =>
      let results := searchResults s g query limit mode
      .ok (answer i.format (.arr (results.map Search.Result.toJson))
        (Search.markdown query results) (TerminalText.search results))
  | .context nodeId o =>
    onGraph env now o s fun _ g =>
      (Surroundings.ofId g (Adjacency.ofGraph g) nodeId).map fun c =>
        answer i.format c.toJson c.markdown (TerminalText.context c)
  | .impact symbolIds failOn o =>
    onGraph env now o s fun _ g =>
      let impact := Impact.ofChangeIn symbolIds g
      let outcome := answer i.format impact.toJson impact.markdown (TerminalText.impact impact)
      let fails := failOn.any fun threshold => decide (threshold.rank ≤ impact.risk.rank)
      .ok { outcome with exitCode := if fails then 1 else 0 }
  | .overview o =>
    onGraph env now o s fun _ g =>
      let overview := Summary.ofGraph g
      .ok (answer i.format overview.toJson overview.markdown overview.markdown)
  | .chat question showTrace o => chat env now i.format question showTrace o s
  | .init => init env.disk

/-- Runs the command that the arguments name, where a graph is built at a moment, if none is given a
second after the start of the clock. -/
def run (env : Environment) (arguments : List String) (now : Nat := 1000) : CommandOutcome :=
  match Arguments.parse? arguments with
  | none => .misuse
  | some i =>
    match loadSettings env.disk i.config with
    | .error e => .failure e.message
    | .ok s => perform env now i (withSecrets env s)

end CommandLine

end CodeAtlas
