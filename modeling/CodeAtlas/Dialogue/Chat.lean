import CodeAtlas.Dialogue.Message
import CodeAtlas.Dialogue.Toolbox

/-!
Conversations in which a language model may call tools. In every round the model is given the
conversation so far; its calls are answered in order and it is asked again, until it answers without
a call or the rounds are used up. A fault of a tool is told to the model, one of the model ends the
conversation.
-/

namespace CodeAtlas

/-- How a language model takes its turn: how long it needs, in milliseconds, how the turn ends if it
is given that long, and whether the caller gives up meanwhile. -/
structure ModelTurn where
  delay : Nat
  result : Except Fault Message
  givesUp : Bool

namespace ModelTurn

/-- The operation that a model's turn is called when it takes too long. -/
def operation : String :=
  "language model call"

/-- How a turn ends within a budget of milliseconds. -/
def outcome (t : ModelTurn) (budget : Nat) : Except Fault Message :=
  if t.delay ≤ budget then t.result else .error (.timeout operation budget)

end ModelTurn

/-- A language model, by the turn it takes at each of its calls, counted from zero. -/
abbrev LanguageModel : Type :=
  Nat → ModelTurn

/-- A tool call that was answered, in the round of that number. -/
structure AnsweredCall where
  round : Nat
  callId : String
  name : String
  arguments : String
  result : String
  isError : Bool
  deriving Repr, DecidableEq

/-- The end of a conversation: the last message and the tool calls on the way to it. -/
structure ChatOutcome where
  message : Message
  toolCalls : List AnsweredCall
  rounds : Nat
  /-- Whether the rounds were used up before the model answered without a call. -/
  exhausted : Bool
  deriving Repr, DecidableEq

/-- The message that tells the model the result of a call. -/
def AnsweredCall.message (t : AnsweredCall) : Message :=
  .ofToolResult t.callId t.result

namespace Chat

/-- What a model is told before a conversation that does not tell it otherwise. -/
def defaultInstructions : String :=
  "You answer questions about a software repository using its code knowledge graph.\n" ++
  "Available tools:\n" ++
  "- search: find symbols and files by keyword; returns node ids\n" ++
  "- context: callers, callees, community, execution flows and imports of one node id\n" ++
  "- impact: blast radius of changing a set of symbol ids\n" ++
  "- overview: repository-wide summary\n" ++
  "Call tools to gather facts before answering. Cite node ids and file paths. " ++
  "When you have enough information, answer without calling tools."

/-- The conversation that a model is given first. -/
def opening (messages : List Message) : List Message :=
  match messages with
  | m :: _ => if m.role = .system then messages else .ofText .system defaultInstructions :: messages
  | [] => [.ofText .system defaultInstructions]

/-- Answers one call; a fault becomes text that the model can read. -/
def answerCall (answer : String → String → Except Fault String) (round : Nat) (c : ToolRequest) :
    AnsweredCall :=
  match answer c.name c.arguments with
  | .ok result => ⟨round, c.id, c.name, c.arguments, result, false⟩
  | .error e => ⟨round, c.id, c.name, c.arguments, "Error: " ++ e.message, true⟩

/-- How much of a tool's result the closing message shows, in characters. -/
def excerptLength : Nat := 600

/-- The beginning of a text, with an ellipsis where something is left out. -/
def excerpt (text : String) (length : Nat) : String :=
  let cs := text.toList
  if cs.length ≤ length then text else String.ofList (cs.take length) ++ "…"

/-- What the closing message shows of a tool call. -/
def closingEntry (t : AnsweredCall) : String :=
  "\n### " ++ t.name ++ " " ++ t.arguments ++ "\n\n" ++ excerpt t.result excerptLength ++ "\n"

/-- The message that ends a conversation whose rounds are used up. -/
def closing (rounds : Nat) (traces : List AnsweredCall) : String :=
  let useful := traces.filter (! ·.isError)
  "I reached the limit of " ++ toString rounds ++
    " tool rounds before reaching a final answer. Here is what the graph returned so far:\n" ++
    if useful.isEmpty then "\nNo tool call returned usable results.\n"
    else String.join (useful.map closingEntry)

/-- The end of a run: its response or fault, and the conversation given at each call of the
model. -/
structure Report where
  outcome : Except Fault ChatOutcome
  asked : List (List Message)

/-- Goes on after `done` rounds, with at most `left` more. -/
def runFrom (answer : String → String → Except Fault String) (budget : Nat)
    (model : LanguageModel) : Nat → Nat → List Message → List AnsweredCall → Report
  | 0, done, _, traces =>
    ⟨.ok ⟨.ofText .assistant (closing done traces), traces, done, true⟩, []⟩
  | left + 1, done, conversation, traces =>
    let turn := model done
    match turn.outcome budget with
    | .error e => ⟨.error e, [conversation]⟩
    | .ok reply =>
      if reply.toolCalls.isEmpty then ⟨.ok ⟨reply, traces, done + 1, false⟩, [conversation]⟩
      else if turn.givesUp then ⟨.error .cancelled, [conversation]⟩
      else
        let answered := reply.toolCalls.map (answerCall answer (done + 1))
        let report := runFrom answer budget model left (done + 1)
          (conversation ++ reply :: answered.map AnsweredCall.message) (traces ++ answered)
        { report with asked := conversation :: report.asked }

/-- Runs a conversation from its first messages. A caller who gave up before is told so at the first
call of the model. -/
def run (tools : Toolbox) (workspace : Workspace) (settings : AgentSettings)
    (model : LanguageModel) (givenUp : Bool) (messages : List Message) : Report :=
  if givenUp && settings.maxRounds != 0 then ⟨.error .cancelled, []⟩
  else
    runFrom (tools.answer workspace) (settings.timeoutSecs * 1000) model settings.maxRounds 0
      (opening messages) []

end Chat

namespace AnsweredCall

/-- The record of a tool call. -/
def toJson (t : AnsweredCall) : Json :=
  .obj [("round", Json.ofNat t.round), ("callId", .str t.callId), ("name", .str t.name),
    ("arguments", .str t.arguments), ("result", .str t.result), ("isError", .bool t.isError)]

end AnsweredCall

namespace ChatOutcome

/-- The record of a conversation that has ended. -/
def toJson (r : ChatOutcome) : Json :=
  .obj [("message", r.message.toJson), ("toolCalls", .arr (r.toolCalls.map AnsweredCall.toJson)),
    ("rounds", Json.ofNat r.rounds), ("exhausted", .bool r.exhausted)]

end ChatOutcome

end CodeAtlas
