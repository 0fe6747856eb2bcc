import CodeAtlas.Report.Surroundings
import CodeAtlas.Report.Summary
import CodeAtlas.Search.Markdown

/-!
Answers for a terminal: plain lines with aligned columns.
-/

namespace CodeAtlas.TerminalText

/-- A text with blanks behind it up to a width. -/
def padEnd (width : Nat) (s : String) : String :=
  s ++ String.ofList (List.replicate (width - s.length) ' ')

/-- A text with blanks in front of it up to a width. -/
def padStart (width : Nat) (s : String) : String :=
  String.ofList (List.replicate (width - s.length) ' ') ++ s

/-- What is written of a graph that was built. -/
def build (g : RepoGraph) : String :=
  let s := g.stats
  g.key ++ " @ " ++ g.branch ++ "\n  " ++ toString s.totalNodes ++ " nodes, " ++
    toString s.totalEdges ++ " edges, " ++ toString s.communities ++ " communities, " ++
    toString s.flows ++ " execution flows\n" ++
    String.join (s.nodesByKind.map fun (kind, n) =>
      "  " ++ padEnd 10 kind.name ++ " " ++ padStart 6 (toString n) ++ "\n") ++
    String.join (s.edgesByKind.map fun (kind, n) =>
      "  " ++ padEnd 10 kind.name ++ " " ++ padStart 6 (toString n) ++ "  (edges)\n") ++
    if s.languages.isEmpty then ""
    else
      let counted := s.languages.map fun (name, n) => name ++ " (" ++ toString n ++ ")"
      "  languages: " ++ ", ".intercalate counted ++ "\n"

/-- The two lines of a search result. -/
def searchEntry (r : Search.Result Float) (position : Nat) : String :=
  padStart 2 (toString (position + 1)) ++ ". " ++ Decimal.fixed 4 r.score ++ "  " ++
    padEnd 9 r.node.kind.name ++ " " ++ r.node.label ++ "  " ++ Search.location r.node ++
    "\n              " ++ r.node.id ++ "\n"

/-- What is written of the results of a search. -/
def search (results : List (Search.Result Float)) : String :=
  if results.isEmpty then "No matches.\n"
  else String.join (results.zipIdx.map fun (r, i) => searchEntry r i)

/-- The line of a neighbour. -/
def neighbour (n : Neighbour) : String :=
  "  " ++ Decimal.fixed 2 n.confidence ++ "  " ++ n.label ++ "  " ++ n.filePath ++ "\n"

/-- What a graph knows about a node. -/
def context (c : Surroundings) : String :=
  c.node.label ++ " (" ++ c.node.kind.name ++ ")\n  id:        " ++ c.node.id ++
    "\n  file:      " ++ c.node.filePath ++ "\n" ++
    (match c.community with
      | some k =>
        "  community: " ++ k.name ++ " (" ++ toString k.symbolCount ++ " symbols, cohesion " ++
          Decimal.fixed 2 k.cohesion ++ ")\n"
      | none => "") ++
    "\nCallers (" ++ toString c.callers.length ++ "):\n" ++ String.join (c.callers.map neighbour) ++
    "\nCallees (" ++ toString c.callees.length ++ "):\n" ++ String.join (c.callees.map neighbour) ++
    (if c.flows.isEmpty then ""
      else
        "\nExecution flows (" ++ toString c.flows.length ++ "):\n" ++
          String.join (c.flows.map fun f =>
            "  " ++ f.name ++ " (" ++ toString f.stepCount ++ " steps)\n")) ++
    (if c.imports.isEmpty then "" else "\nImports: " ++ ", ".intercalate c.imports ++ "\n") ++
    if c.importedBy.isEmpty then "" else "Imported by: " ++ ", ".intercalate c.importedBy ++ "\n"

/-- The lines of one step of an impact. -/
def tier (title : String) (nodes : List Affected) : String :=
  "\n" ++ title ++ " (" ++ toString nodes.length ++ "):\n" ++
    String.join (nodes.map fun n =>
      "  " ++ padEnd 9 n.kind.name ++ " " ++ n.label ++ "  " ++ n.filePath ++ "  via " ++
        n.via.name ++ "\n")

/-- What is written of an impact. -/
def impact (i : Impact) : String :=
  "Risk: " ++ i.risk.name ++ "\n" ++
    String.join (i.unknown.map fun id => "  warning: " ++ id ++ " is not in the graph\n") ++
    tier "Depth 1" i.depth1 ++ tier "Depth 2" i.depth2 ++ tier "Depth 3" i.depth3 ++
    if i.affectedFlows.isEmpty then ""
    else
      "\nAffected flows (" ++ toString i.affectedFlows.length ++ "):\n" ++
        String.join (i.affectedFlows.map fun f => "  " ++ f.name ++ "\n")

/-- The commands, each with what it does. -/
def commands : List (String × String) :=
  [("build", "Build the graph and print a summary"),
    ("search", "Hybrid BM25 + term-overlap search"),
    ("context", "Callers, callees, community and flows of a node"),
    ("impact", "Blast radius and risk level of a change"),
    ("overview", "Communities, flows and most-called symbols"),
    ("chat", "Ask an LLM that explores the graph with tools"),
    ("mcp", "Start MCP server for IDE integration"),
    ("init", "Create default configuration")]

/-- A text in a colour or another style of terminals. -/
def styled (color : Bool) (style text : String) : String :=
  if color then "\x1b[" ++ style ++ "m" ++ text ++ "\x1b[0m" else text

/-- What is said to someone who gives no command. -/
def welcome (color : Bool) : String :=
  (if color then "\x1b[1m\x1b[36m◆\x1b[0m " else "") ++ styled color "1" "cartograph" ++
    " v0.1.0 - a map of your code\n\nQuick start:\n" ++
    "  " ++ styled color "36" "cartograph init" ++
    "               Create a .cartograph.toml config file\n" ++
    "  " ++ styled color "36" "cartograph build --path ." ++
    "     Build the graph for this directory\n" ++
    "  " ++ styled color "36" "cartograph search <query>" ++
    "     Find symbols\n\nAll commands:\n" ++
    String.join (commands.map fun (name, what) =>
      "  " ++ styled color "32" (padEnd 9 name) ++ " " ++ what ++ "\n") ++
    "\nRun 'cartograph <command> --help' for details.\n"

/-- A configuration file in which every setting has its default and is commented out. -/
def template : String :=
  "# Cartograph Configuration\n" ++
  "# Values shown are the defaults. CLI flags and environment variables override this file.\n\n" ++
  "[build]\n" ++
  "# max_files = 150\n" ++
  "# max_file_size = 51200\n" ++
  "# concurrency = 5\n" ++
  "# noise_dirs = [\"node_modules\", \"dist\", \"build\", \".git\", \".next\", \"out\", " ++
  "\"coverage\", \"__pycache__\", \".venv\", \"venv\", \"vendor\", \"target\"]\n" ++
  "# skip_patterns = [\"*.test.ts\", \"**/fixtures/**\"]\n" ++
  "# ambiguity = \"first_match\"   # or \"split_all\"\n" ++
  "# fetch_timeout_secs = 30\n" ++
  "# fetch_retries = 2\n\n" ++
  "[cache]\n" ++
  "# ttl_secs = 1800\n" ++
  "# capacity = 20\n\n" ++
  "[search]\n" ++
  "# bm25_k1 = 1.2\n" ++
  "# bm25_b = 0.75\n" ++
  "# rrf_k = 60\n\n" ++
  "[agent]\n" ++
  "# max_rounds = 5\n" ++
  "# max_tokens = 2048\n" ++
  "# timeout_secs = 120\n\n" ++
  "[llm]\n" ++
  "# OpenAI-compatible endpoint; api_key falls back to OPENAI_API_KEY\n" ++
  "# provider = \"openai\"\n" ++
  "# model = \"gpt-4o\"\n" ++
  "# base_url = \"https://api.openai.com\"\n\n" ++
  "[github]\n" ++
  "# token falls back to GITHUB_TOKEN\n" ++
  "# api_url = \"https://api.github.com\"\n"

end CodeAtlas.TerminalText
