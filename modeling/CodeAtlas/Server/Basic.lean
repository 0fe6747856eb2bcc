import CodeAtlas.Disk.Listing
import CodeAtlas.Dialogue.Toolbox
import CodeAtlas.Json.Printer
import CodeAtlas.Repository.Supply
import CodeAtlas.Server.Query

/-!
A server that answers queries about the graph of one repository. The graph is built for the first
query that needs it and kept.
-/

namespace CodeAtlas

/-- A server with its repository. -/
structure GraphServer where
  source : RepoOrigin
  provider : Provider
  constants : Search.Constants Float
  service : GraphSupply

namespace GraphServer

/-- A server that has answered nothing yet. -/
def start (s : Settings) (source : RepoOrigin) (provider : Provider) : GraphServer :=
  ⟨source, provider, ⟨s.search.bm25K1, s.search.bm25B, s.search.rrfK⟩, .start s.build s.cache⟩

/-- The form of an answer: Markdown unless another one is named. -/
def formatOf (name : Option String) : Except Refusal AnswerForm :=
  match name with
  | none => .ok .markdown
  | some name => (AnswerForm.parse name).mapError .invalidParameters

/-- How many results a search without a limit returns. -/
def usualLimit : Nat := 10

/-- How many results a search returns at most. -/
def largestLimit : Nat := 100

/-- Accepts what can be asked of any graph. -/
def validate : Query.Subject → Except Refusal Unit
  | .impact [] => .error (.invalidParameters "symbol_ids must name at least one node")
  | _ => .ok ()

/-- Writes an answer: a record as indented JSON, else its text. -/
def write (format : AnswerForm) (record : Json) (markdown : String) : String :=
  match format with
  | .json => record.pretty
  | _ => markdown

/-- What is said about a subject of a graph, in the form that is wanted. -/
def answer (constants : Search.Constants Float) (g : RepoGraph) (format : AnswerForm) :
    Query.Subject → Except Refusal String
  | .search query limit =>
    let limit := max 1 (min (limit.getD usualLimit) largestLimit)
    let results := (Search.Engine.ofNodes g.nodes).search constants query limit
    .ok (write format
      (.obj [("query", .str query), ("results", .arr (results.map Search.Result.toJson)),
        ("total", Json.ofNat results.length)])
      (Search.markdown query results))
  | .context nodeId =>
    match Surroundings.ofId g (Adjacency.ofGraph g) nodeId with
    | .ok context => .ok (write format context.toJson context.markdown)
    | .error e => .error (.ofFault e)
  | .impact symbolIds =>
    let impact := Impact.ofChangeIn symbolIds g
    .ok (write format impact.toJson impact.markdown)
  | .overview =>
    let overview := Summary.ofGraph g
    .ok (write format overview.toJson overview.markdown)

/-- The refusal of a query whose graph cannot be built. -/
def buildFailed (source : RepoOrigin) (e : Fault) : Refusal :=
  .internal ("Failed to build graph for " ++ source.repo ++ ": " ++ e.message)

/-- Answers a query. The answer does not reach a client whose query is stopped because its graph
cannot be kept. -/
def handle (s : GraphServer) (cancel : Cancellation) (now : Nat) (q : Query) :
    Except Refusal String × GraphServer :=
  match formatOf q.format, validate q.subject with
  | .error e, _ => (.error e, s)
  | .ok _, .error e => (.error e, s)
  | .ok format, .ok () =>
    let (reply, service) :=
      s.service.graph s.provider cancel now s.source.owner s.source.repo s.source.branch
    let s := { s with service }
    match reply.outcome with
    | .ok g => (answer s.constants g format q.subject, s)
    | .error e => (.error (buildFailed s.source e), s)

/-- What the server tells a client about how to use it. -/
def instructions : String :=
  "cartograph builds a code knowledge graph of one repository (symbols, calls, imports, " ++
  "inheritance, communities, execution flows). The graph is built on the first tool call.\n" ++
  "- graph_overview: start here for counts, communities, flows and hot symbols\n" ++
  "- search_graph: find node ids by name, word, or path\n" ++
  "- node_context: callers, callees, community, flows and imports of one node\n" ++
  "- impact_analysis: blast radius and risk level of changing symbols"

/-- What the server tells a client about itself. -/
def info : Json :=
  .obj [("protocolVersion", .str "2024-11-05"), ("capabilities", .obj [("tools", .obj [])]),
    ("serverInfo", .obj [("name", .str "cartograph"), ("title", .str "Cartograph Code Graph"),
      ("version", .str "0.1.0"),
      ("description", .str "Code knowledge graph: search, context and impact analysis")]),
    ("instructions", .str instructions)]

end GraphServer

end CodeAtlas
