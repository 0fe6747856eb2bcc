import CodeAtlas.Fault
import CodeAtlas.Graph.Record
import CodeAtlas.Json.Reader
import CodeAtlas.Text.Blank

/-!
The questions that may be asked about a graph by name, with arguments in JSON: a search, the context
of a node, the impact of a change, and an overview.
-/

namespace CodeAtlas

/-- A question about a graph. -/
inductive Tool where
  | search (query : String) (limit : Option Nat)
  | context (nodeId : String)
  | impact (symbolIds : List String)
  | overview
  deriving Repr, DecidableEq, Inhabited

namespace Tool

/-- The names of the tools. -/
def names : List String :=
  ["search", "context", "impact", "overview"]

/-- The name of the tool that is called. -/
def name : Tool → String
  | search _ _ => "search"
  | context _ => "context"
  | impact _ => "impact"
  | overview => "overview"

/-- Reads the arguments of a search. -/
def searchOf? (j : Json) : Option Tool := do
  let r ← j.record? [["query"], ["topK", "top_k"]]
  let query ← r.required 0 Json.str?
  let limit ← r.withDefault 1 none (Json.option? (Json.natBelow? countBound))
  some (search query limit)

/-- Reads the arguments of a question for the surroundings of a node. -/
def contextOf? (j : Json) : Option Tool := do
  let r ← j.record? [["nodeId", "node_id"]]
  (r.required 0 Json.str?).map context

/-- Reads the arguments of a question for the impact of a change. -/
def impactOf? (j : Json) : Option Tool := do
  let r ← j.record? [["symbolIds", "symbol_ids"]]
  (r.required 0 (Json.list? Json.str?)).map impact

/-- Arguments as text, where blank text stands for no arguments. -/
def readArguments (read : Json → Option Tool) (arguments : String) : Except Fault Tool :=
  let text := if arguments.toList.all Text.isBlank then "\x7b\x7d" else arguments
  match (Json.parse? text).bind read with
  | some tool => .ok tool
  | none => .error .serialization

/-- The question of a name with arguments; an overview takes whatever it is given. -/
def parse (name arguments : String) : Except Fault Tool :=
  match name with
  | "search" => readArguments searchOf? arguments
  | "context" => readArguments contextOf? arguments
  | "impact" => readArguments impactOf? arguments
  | "overview" => .ok overview
  | other => .error (.notFound ("tool " ++ other))

end Tool

end CodeAtlas
