import CodeAtlas.Graph.Record

/-!
The messages of a conversation with a language model. The assistant may ask for tools to be called,
and a tool's message answers one such call.
-/

namespace CodeAtlas

/-- Who speaks. -/
inductive Role where
  | system
  | user
  | assistant
  | tool
  deriving Repr, DecidableEq, Inhabited

namespace Role

/-- The name of a role in records. -/
def name : Role → String
  | system => "system"
  | user => "user"
  | assistant => "assistant"
  | tool => "tool"

/-- The role with a name. -/
def ofName? (s : String) : Option Role :=
  [system, user, assistant, tool].find? (·.name == s)

/-- Every role is found under its own name. -/
theorem ofName?_name (r : Role) : ofName? r.name = some r := by
  cases r <;> decide

end Role

/-- A request that a tool be called, with its arguments as JSON text. -/
structure ToolRequest where
  id : String
  kind : String
  name : String
  arguments : String
  deriving Repr, DecidableEq, Inhabited

/-- A message. -/
structure Message where
  role : Role
  content : String
  toolCalls : List ToolRequest
  /-- The call that is answered, on a tool's message. -/
  toolCallId : Option String
  deriving Repr, DecidableEq, Inhabited

namespace ToolRequest

/-- The kind of a call that names none. -/
def defaultKind : String :=
  "function"

/-- Reads what a call wants: a tool's name and arguments. -/
def target? (j : Json) : Option (String × String) := do
  let r ← j.record? [["name"], ["arguments"]]
  let name ← r.required 0 Json.str?
  let arguments ← r.withDefault 1 "" Json.str?
  some (name, arguments)

/-- Reads a tool call. -/
def ofJson? (j : Json) : Option ToolRequest := do
  let r ← j.record? [["id"], ["type"], ["function"]]
  let id ← r.required 0 Json.str?
  let kind ← r.withDefault 1 defaultKind Json.str?
  let (name, arguments) ← r.required 2 target?
  some ⟨id, kind, name, arguments⟩

/-- The record of a tool call. -/
def toJson (c : ToolRequest) : Json :=
  .obj [("id", .str c.id), ("type", .str c.kind),
    ("function", .obj [("name", .str c.name), ("arguments", .str c.arguments)])]

end ToolRequest

namespace Message

/-- A message that is only text. -/
def ofText (role : Role) (content : String) : Message :=
  ⟨role, content, [], none⟩

/-- A message with the result of a tool call. -/
def ofToolResult (callId content : String) : Message :=
  { ofText .tool content with toolCallId := some callId }

/-- The content of a message; `null` stands for none. -/
def content? (j : Json) : Option String :=
  (j.option? Json.str?).map (·.getD "")

/-- Reads a message. Only the role must be there. -/
def ofJson? (j : Json) : Option Message := do
  let r ← j.record? [["role"], ["content"], ["tool_calls"], ["tool_call_id"]]
  some {
    role := ← r.required 0 fun k => k.choice?.bind Role.ofName?
    content := ← r.withDefault 1 "" content?
    toolCalls := ← r.withDefault 2 [] (Json.list? ToolRequest.ofJson?)
    toolCallId := ← r.withDefault 3 none (Json.option? Json.str?) }

/-- The field of a message's calls; it is left out where there are none. -/
def callFields : List ToolRequest → List (String × Json)
  | [] => []
  | calls => [("tool_calls", .arr (calls.map ToolRequest.toJson))]

/-- The record of a message. Tool calls are written where there are any. -/
def toJson (m : Message) : Json :=
  .obj ([("role", .str m.role.name), ("content", .str m.content)] ++ callFields m.toolCalls ++
    Json.fieldIfSome "tool_call_id" .str m.toolCallId)

end Message

end CodeAtlas
