import CodeAtlas.Dialogue.Message
import CodeAtlas.Proofs.Graph.Record

/-!
# The records of conversations

Every message is read back from what it is written as, the calls that it asks for included. A message
without calls, or that answers none, is written without the fields for them and is read back without
calls, as the absence of a field means the same.
-/

namespace CodeAtlas

open Json (Exact exact_str)

namespace ToolRequest

/-- Writes what a call wants. -/
def targetJson (target : String × String) : Json :=
  .obj [("name", .str target.1), ("arguments", .str target.2)]

theorem toJson_eq (c : ToolRequest) : c.toJson = .obj [("id", .str c.id), ("type", .str c.kind),
    ("function", targetJson (c.name, c.arguments))] := rfl

theorem exact_target : Exact targetJson target? fun _ => True where
  proper target _ := .obj (by simp [Json.Proper.str])
  returns target _ := by
    let r : Json.Record := ⟨[some (.str target.1), some (.str target.2)], false⟩
    have taken : (Json.obj (Json.present [("name", some (.str target.1)),
        ("arguments", some (.str target.2))])).record? [["name"], ["arguments"]] = some r :=
      Json.record?_present rfl (by decide)
    simp only [target?, Option.bind_eq_bind, Option.bind_eq_some_iff]
    exact ⟨r, taken, _, rfl, _, rfl, rfl⟩
  fitting _ _ _ _ := trivial

theorem exact : Exact toJson ofJson? fun _ => True where
  proper c _ := by
    have target := exact_target.proper (c.name, c.arguments) trivial
    rw [toJson_eq]
    exact .obj (by simpa [Json.Proper.str] using target)
  returns c _ := by
    let target := targetJson (c.name, c.arguments)
    let r : Json.Record := ⟨[some (.str c.id), some (.str c.kind), some target], false⟩
    have taken : (Json.obj (Json.present [("id", some (.str c.id)), ("type", some (.str c.kind)),
        ("function", some target)])).record? [["id"], ["type"], ["function"]] = some r :=
      Json.record?_present rfl (by decide)
    have wanted : r.required 2 target? = some (c.name, c.arguments) :=
      exact_target.required_returns rfl trivial
    simp only [ofJson?, Option.bind_eq_bind, Option.bind_eq_some_iff]
    exact ⟨r, taken, _, rfl, _, rfl, _, wanted, rfl⟩
  fitting _ _ _ _ := trivial

end ToolRequest

namespace Message

/-- The calls of a message as they are written, where there are any. -/
def calls? : List ToolRequest → Option Json
  | [] => none
  | calls => some (.arr (calls.map ToolRequest.toJson))

/-- The fields of a message, absent ones included. -/
def fields (m : Message) : List (String × Option Json) :=
  [("role", some (.str m.role.name)), ("content", some (.str m.content)),
    ("tool_calls", calls? m.toolCalls), ("tool_call_id", m.toolCallId.map .str)]

theorem toJson_eq (m : Message) : m.toJson = .obj (Json.present m.fields) := by
  obtain ⟨role, content, toolCalls, toolCallId⟩ := m
  cases toolCalls <;> cases toolCallId <;> rfl

theorem exact_role : Exact (fun role : Role => .str role.name)
    (fun k => k.choice?.bind Role.ofName?) fun _ => True :=
  Json.exact_choice Role.ofName?_name

theorem exact_calls : Exact (fun calls => .arr (calls.map ToolRequest.toJson))
    (Json.list? ToolRequest.ofJson?) fun _ => True :=
  ToolRequest.exact.list.congr (by simp)

theorem exact : Exact toJson ofJson? fun _ => True where
  proper m _ := by
    have calls : ∀ v, calls? m.toolCalls = some v → v.Proper := by
      intro v given
      cases listed : m.toolCalls with
      | nil => simp [listed, calls?] at given
      | cons c rest =>
        rw [listed] at given
        obtain rfl := Option.some.inj given
        exact exact_calls.proper (c :: rest) trivial
    rw [toJson_eq]
    apply Json.present_proper
    simpa [fields, Json.Proper.str] using calls
  returns m _ := by
    let r : Json.Record := ⟨m.fields.map Prod.snd, false⟩
    have taken : (Json.obj (Json.present m.fields)).record?
        [["role"], ["content"], ["tool_calls"], ["tool_call_id"]] = some r :=
      Json.record?_present rfl (by decide)
    have role : (r.required 0 fun k => k.choice?.bind Role.ofName?) = some m.role :=
      exact_role.required_returns rfl trivial
    have toolCalls : r.withDefault 2 [] (Json.list? ToolRequest.ofJson?) = some m.toolCalls := by
      have given : r.value? 2 = calls? m.toolCalls := rfl
      rw [Json.Record.withDefault, given]
      cases m.toolCalls with
      | nil => rfl
      | cons c rest => exact exact_calls.returns (c :: rest) trivial
    have toolCallId : r.withDefault 3 none (Json.option? Json.str?) = some m.toolCallId := by
      have given : r.value? 3 = m.toolCallId.map .str := rfl
      rw [Json.Record.withDefault, given]
      cases m.toolCallId with
      | none => rfl
      | some id => rfl
    rw [toJson_eq]
    simp only [ofJson?, Option.bind_eq_bind, Option.bind_eq_some_iff]
    exact ⟨r, taken, _, role, _, rfl, _, toolCalls, _, toolCallId, rfl⟩
  fitting _ _ _ _ := trivial

end Message

namespace Json

/-- The parts of graphs and the messages of conversations survive being written and read. -/
theorem records_survive :
    Survives Node.toJson Node.ofJson? Node.InRange ∧
      Survives Edge.toJson Edge.ofJson? Edge.InRange ∧
      Survives Community.toJson Community.ofJson? Community.InRange ∧
      Survives Flow.toJson Flow.ofJson? Flow.InRange ∧
      Survives Message.toJson Message.ofJson? fun _ => True :=
  ⟨Node.exact.survives, Edge.exact.survives, Community.exact.survives, Flow.exact.survives,
    Message.exact.survives⟩

end Json

/-- A weight that is given as a whole number, beside a field that is not known. -/
example : (Edge.ofJson? (.obj [("id", .str "e"), ("source", .str "a"), ("target", .str "b"),
    ("type", .str "calls"), ("weight", .int 1), ("confidence", .float 0.5), ("reason", .str ""),
    ("note", .null)])).map Edge.weight = some 1.0 := by
  decide

/-- An answer of a model without content, with a field that is not known. -/
example : Message.ofJson? (.obj [("role", .str "assistant"), ("content", .null),
    ("refusal", .null)]) = some (.ofText .assistant "") := by
  decide

end CodeAtlas
