import CodeAtlas.Decimal.Fixed
import CodeAtlas.Graph.Record
import CodeAtlas.Search.Engine

/-!
Search results in Markdown and as records.
-/

namespace CodeAtlas.Search

/-- Where a node is: its file, and its first line if it has one. -/
def location (n : Node) : String :=
  match n.lineStart with
  | some line => n.filePath ++ ":" ++ toString line
  | none => n.filePath

/-- The entry of the result at a position. -/
def Result.markdown (r : Result Float) (position : Nat) : String :=
  toString (position + 1) ++ ". **" ++ r.node.label ++ "** (" ++ r.node.kind.name ++ ") \u0060" ++
    location r.node ++ "\u0060 score " ++ Decimal.fixed 4 r.score ++ " [" ++
    "+".intercalate (r.sources.map Ranking.name) ++ "]\n   id: \u0060" ++ r.node.id ++ "\u0060\n"

/-- The results of a query as a list. -/
def markdown (query : String) (results : List (Result Float)) : String :=
  "## Search: " ++ query ++ "\n\n" ++
    if results.isEmpty then "No matching symbols.\n"
    else String.join (results.zipIdx.map fun (r, i) => r.markdown i)

/-- The record of a result. -/
def Result.toJson (r : Result Float) : Json :=
  .obj [("node", r.node.toJson), ("score", Json.ofFloat r.score),
    ("sources", Json.ofStrings (r.sources.map Ranking.name))]

end CodeAtlas.Search
