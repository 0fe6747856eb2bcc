import CodeAtlas.Decimal.Fixed
import CodeAtlas.Graph.Record
import CodeAtlas.Impact.Analysis

/-!
The effect of a change in Markdown and as a record.
-/

namespace CodeAtlas

/-- A text set as code. -/
def codeSpan (s : String) : String :=
  "\u0060" ++ s ++ "\u0060"

/-- A name and a number of steps, as a list entry. -/
def Flow.entry (f : Flow) : String :=
  "- " ++ f.name ++ " (" ++ toString f.stepCount ++ " steps)\n"

/-- The list entry of an affected node. -/
def Affected.entry (a : Affected) : String :=
  "- **" ++ a.label ++ "** (" ++ a.kind.name ++ ") " ++ codeSpan a.filePath ++ " via " ++
    a.via.name ++ " (" ++ Decimal.fixed 2 a.confidence ++ ")\n"

/-- The record of an affected symbol. -/
def Affected.toJson (a : Affected) : Json :=
  .obj [("id", .str a.id), ("label", .str a.label), ("type", .str a.kind.name),
    ("filePath", .str a.filePath), ("via", .str a.via.name),
    ("confidence", Json.ofFloat a.confidence)]

namespace Impact

/-- The affected symbols at a distance, under a title. -/
def tierSection (title : String) (tier : List Affected) : String :=
  "### " ++ title ++ ": " ++ toString tier.length ++ "\n\n" ++
    String.join (tier.map Affected.entry) ++ if tier.isEmpty then "" else "\n"

/-- The effect of a change as a text. -/
def markdown (i : Impact) : String :=
  let ids (list : List String) : String := ", ".intercalate (list.map codeSpan)
  "## Impact Analysis\n\n**Risk:** " ++ i.risk.name ++ "\n**Changed:** " ++ ids i.changed ++
    "\n" ++
    (if i.unknown.isEmpty then "" else "**Not in graph:** " ++ ids i.unknown ++ "\n") ++ "\n" ++
    tierSection "Depth 1 (direct dependents)" i.depth1 ++ tierSection "Depth 2" i.depth2 ++
    tierSection "Depth 3" i.depth3 ++
    if i.affectedFlows.isEmpty then ""
    else
      "### Affected flows: " ++ toString i.affectedFlows.length ++ "\n\n" ++
        String.join (i.affectedFlows.map Flow.entry)

/-- The record of an impact. -/
def toJson (i : Impact) : Json :=
  .obj [("changed", Json.ofStrings i.changed), ("unknown", Json.ofStrings i.unknown),
    ("depth1", .arr (i.depth1.map Affected.toJson)),
    ("depth2", .arr (i.depth2.map Affected.toJson)),
    ("depth3", .arr (i.depth3.map Affected.toJson)), ("riskLevel", .str i.risk.name),
    ("affectedProcesses", .arr (i.affectedFlows.map Flow.toJson))]

end Impact

end CodeAtlas
