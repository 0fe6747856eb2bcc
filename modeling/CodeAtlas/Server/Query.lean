import CodeAtlas.Fault
import CodeAtlas.Graph.Record
import CodeAtlas.AnswerForm

/-!
The queries that a client sends to a graph server, and why a server refuses one.
-/

namespace CodeAtlas

/-- What a client wants to know. -/
inductive Query.Subject where
  | search (query : String) (limit : Option Nat)
  | context (nodeId : String)
  | impact (symbolIds : List String)
  | overview
  deriving Repr, DecidableEq

/-- A query, and the name of the form in which it is to be answered. -/
structure Query where
  subject : Query.Subject
  format : Option String
  deriving Repr, DecidableEq

namespace Query

/-- The query of a tool's name and its parameters. -/
def ofJson? (tool : String) (parameters : Json) : Option Query :=
  match tool with
  | "search_graph" => do
    let r ← parameters.record? [["query"], ["limit"], ["format"]]
    let query ← r.required 0 Json.str?
    let limit ← r.optional 1 (Json.natBelow? countBound)
    let format ← r.optional 2 Json.str?
    some ⟨.search query limit, format⟩
  | "node_context" => do
    let r ← parameters.record? [["node_id"], ["format"]]
    let nodeId ← r.required 0 Json.str?
    let format ← r.optional 1 Json.str?
    some ⟨.context nodeId, format⟩
  | "impact_analysis" => do
    let r ← parameters.record? [["symbol_ids"], ["format"]]
    let symbolIds ← r.required 0 (Json.list? Json.str?)
    let format ← r.optional 1 Json.str?
    some ⟨.impact symbolIds, format⟩
  | "graph_overview" => do
    let r ← parameters.record? [["format"]]
    let format ← r.optional 0 Json.str?
    some ⟨.overview, format⟩
  | _ => none

end Query

/-- Why a query is refused. -/
inductive Refusal where
  /-- The query itself has no answer. -/
  | invalidParameters (message : String)
  /-- The server cannot answer. -/
  | internal (message : String)
  deriving Repr, DecidableEq

namespace Refusal

/-- The number that stands for the kind of refusal. -/
def code : Refusal → Int
  | invalidParameters _ => -32602
  | internal _ => -32603

/-- What is said about a refusal. -/
def message : Refusal → String
  | invalidParameters m => m
  | internal m => m

/-- The refusal after a fault of a query on a graph. -/
def ofFault : Fault → Refusal
  | .notFound what => invalidParameters ("not found: " ++ what)
  | other => internal other.message

end Refusal

end CodeAtlas
