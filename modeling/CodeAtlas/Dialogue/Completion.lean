import CodeAtlas.Dialogue.Message
import CodeAtlas.Fault
import CodeAtlas.Json.Printer

/-!
The answer of a language model's service: the message of its first choice.
-/

namespace CodeAtlas.Completion

/-- The fault of an answer without a first choice or without its message; it shows the answer. -/
def unexpectedShape (body : Json) : Fault :=
  .model ("unexpected response structure: " ++ body.compact)

/-- The fault of a choice whose message is none. -/
def malformedMessage : Fault :=
  .model "malformed assistant message"

/-- The message of the first choice. Of a field that is written twice the last counts, and fields
are in order of their names. -/
def message (answer : Json) : Except Fault Message :=
  let body := answer.sorted
  match ((body.get? "choices").bind (Json.item? 0)).bind (Json.get? "message") with
  | none => .error (unexpectedShape body)
  | some j =>
    match Message.ofJson? j with
    | some m => .ok m
    | none => .error malformedMessage

end CodeAtlas.Completion
