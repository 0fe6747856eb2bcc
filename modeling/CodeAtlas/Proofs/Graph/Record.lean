import CodeAtlas.Proofs.Json.Record

/-!
# The records of graphs

Nodes, edges, communities and flows are read back from what they are written as, if their numbers are
in range: line numbers have 32 bits, counts 64, and certainties, weights and cohesions are finite.
-/

namespace CodeAtlas

open Json (Exact exact_str exact_float exact_strings)

theorem exact_line : Exact Json.ofNat (Json.natBelow? lineBound) (· < lineBound) :=
  Json.exact_nat (by decide)

theorem exact_count : Exact Json.ofNat (Json.natBelow? countBound) (· < countBound) :=
  Json.exact_nat le_rfl

namespace Node

/-- The line numbers are in range. -/
structure InRange (n : Node) : Prop where
  lineStart : ∀ line, n.lineStart = some line → line < lineBound
  lineEnd : ∀ line, n.lineEnd = some line → line < lineBound

/-- The fields of a node, absent ones included. -/
def fields (n : Node) : List (String × Option Json) :=
  [("id", some (.str n.id)), ("type", some (.str n.kind.name)), ("label", some (.str n.label)),
    ("filePath", some (.str n.filePath)), ("directory", some (.str n.directory)),
    ("language", some (.str n.language)), ("lineStart", n.lineStart.map Json.ofNat),
    ("lineEnd", n.lineEnd.map Json.ofNat), ("communityId", n.communityId.map .str)]

theorem exact_kind : Exact (fun kind : NodeKind => .str kind.name)
    (fun k => k.choice?.bind NodeKind.ofName?) fun _ => True :=
  Json.exact_choice NodeKind.ofName?_name

theorem toJson_eq (n : Node) : n.toJson = .obj (Json.present n.fields) := by
  obtain ⟨id, kind, label, filePath, directory, language, lineStart, lineEnd, communityId⟩ := n
  cases lineStart <;> cases lineEnd <;> cases communityId <;> rfl

theorem exact : Exact toJson ofJson? InRange where
  proper n inRange := by
    have lineStart : ∀ line, n.lineStart = some line → (Json.ofNat line).Proper :=
      fun line given => exact_line.proper line (inRange.lineStart line given)
    have lineEnd : ∀ line, n.lineEnd = some line → (Json.ofNat line).Proper :=
      fun line given => exact_line.proper line (inRange.lineEnd line given)
    rw [toJson_eq]
    apply Json.present_proper
    simpa [fields, Json.Proper.str] using ⟨lineStart, lineEnd⟩
  returns n inRange := by
    let r : Json.Record := ⟨n.fields.map Prod.snd, false⟩
    have taken : (Json.obj (Json.present n.fields)).record? fieldNames = some r :=
      Json.record?_present rfl (by decide)
    have kind : (r.required 1 fun k => k.choice?.bind NodeKind.ofName?) = some n.kind :=
      exact_kind.required_returns rfl trivial
    have lineStart : r.optional 6 (Json.natBelow? lineBound) = some n.lineStart :=
      exact_line.optional_returns (by simp [Json.ofNat]) rfl rfl inRange.lineStart
    have lineEnd : r.optional 7 (Json.natBelow? lineBound) = some n.lineEnd :=
      exact_line.optional_returns (by simp [Json.ofNat]) rfl rfl inRange.lineEnd
    have communityId : r.optional 8 Json.str? = some n.communityId :=
      exact_str.optional_returns (by simp) rfl rfl (by simp)
    rw [toJson_eq]
    simp only [ofJson?, Option.bind_eq_bind, Option.bind_eq_some_iff]
    exact ⟨r, taken, _, rfl, _, kind, _, rfl, _, rfl, _, rfl, _, rfl, _, lineStart, _, lineEnd, _,
      communityId, rfl⟩
  fitting j n proper read := by
    simp only [ofJson?, Option.bind_eq_bind, Option.bind_eq_some_iff, Option.some.injEq] at read
    obtain ⟨r, taken, id, -, kind, -, label, -, filePath, -, directory, -, language, -, lineStart,
      start, lineEnd, «end», communityId, -, rfl⟩ := read
    have properFields := Json.record?_proper proper taken
    exact ⟨exact_line.optional properFields start, exact_line.optional properFields «end»⟩

end Node

namespace Edge

/-- The weight and the certainty are finite. -/
structure InRange (e : Edge) : Prop where
  weight : e.weight.isFinite = true
  confidence : e.confidence.isFinite = true

/-- The fields of an edge. -/
def fields (e : Edge) : List (String × Option Json) :=
  [("id", some (.str e.id)), ("source", some (.str e.source)), ("target", some (.str e.target)),
    ("type", some (.str e.kind.name)), ("weight", some (Json.ofFloat e.weight)),
    ("confidence", some (Json.ofFloat e.confidence)), ("reason", some (.str e.reason))]

theorem exact_kind : Exact (fun kind : EdgeKind => .str kind.name)
    (fun k => k.choice?.bind EdgeKind.ofName?) fun _ => True :=
  Json.exact_choice EdgeKind.ofName?_name

theorem toJson_eq (e : Edge) : e.toJson = .obj (Json.present e.fields) := rfl

theorem exact : Exact toJson ofJson? InRange where
  proper e inRange := by
    have weight := exact_float.proper e.weight inRange.weight
    have confidence := exact_float.proper e.confidence inRange.confidence
    rw [toJson_eq]
    apply Json.present_proper
    simpa [fields, Json.Proper.str] using ⟨weight, confidence⟩
  returns e inRange := by
    let r : Json.Record := ⟨e.fields.map Prod.snd, false⟩
    have taken : (Json.obj (Json.present e.fields)).record? fieldNames = some r :=
      Json.record?_present rfl (by decide)
    have kind : (r.required 3 fun k => k.choice?.bind EdgeKind.ofName?) = some e.kind :=
      exact_kind.required_returns rfl trivial
    have weight : r.required 4 Json.float? = some e.weight :=
      exact_float.required_returns rfl inRange.weight
    have confidence : r.required 5 Json.float? = some e.confidence :=
      exact_float.required_returns rfl inRange.confidence
    rw [toJson_eq]
    simp only [ofJson?, Option.bind_eq_bind, Option.bind_eq_some_iff]
    exact ⟨r, taken, _, rfl, _, rfl, _, rfl, _, kind, _, weight, _, confidence, _, rfl, rfl⟩
  fitting j e proper read := by
    simp only [ofJson?, Option.bind_eq_bind, Option.bind_eq_some_iff, Option.some.injEq] at read
    obtain ⟨r, taken, id, -, source, -, target, -, kind, -, weight, weighs, confidence, certain,
      reason, -, rfl⟩ := read
    have properFields := Json.record?_proper proper taken
    exact ⟨exact_float.required properFields weighs, exact_float.required properFields certain⟩

end Edge

namespace Community

/-- The cohesion is finite, and the count of symbols is in range. -/
structure InRange (c : Community) : Prop where
  cohesion : c.cohesion.isFinite = true
  symbolCount : c.symbolCount < countBound

/-- The fields of a community. -/
def fields (c : Community) : List (String × Option Json) :=
  [("id", some (.str c.id)), ("name", some (.str c.name)),
    ("keywords", some (Json.ofStrings c.keywords)), ("cohesion", some (Json.ofFloat c.cohesion)),
    ("symbolCount", some (Json.ofNat c.symbolCount)),
    ("memberIds", some (Json.ofStrings c.memberIds))]

theorem toJson_eq (c : Community) : c.toJson = .obj (Json.present c.fields) := rfl

theorem exact : Exact toJson ofJson? InRange where
  proper c inRange := by
    have cohesion := exact_float.proper c.cohesion inRange.cohesion
    have symbolCount := exact_count.proper c.symbolCount inRange.symbolCount
    have strings (texts : List String) : (Json.ofStrings texts).Proper :=
      exact_strings.proper texts trivial
    rw [toJson_eq]
    apply Json.present_proper
    simpa [fields, Json.Proper.str, strings] using ⟨cohesion, symbolCount⟩
  returns c inRange := by
    let r : Json.Record := ⟨c.fields.map Prod.snd, false⟩
    have taken : (Json.obj (Json.present c.fields)).record? fieldNames = some r :=
      Json.record?_present rfl (by decide)
    have keywords : r.required 2 (Json.list? Json.str?) = some c.keywords :=
      exact_strings.required_returns rfl trivial
    have cohesion : r.required 3 Json.float? = some c.cohesion :=
      exact_float.required_returns rfl inRange.cohesion
    have symbolCount : r.required 4 (Json.natBelow? countBound) = some c.symbolCount :=
      exact_count.required_returns rfl inRange.symbolCount
    have memberIds : r.required 5 (Json.list? Json.str?) = some c.memberIds :=
      exact_strings.required_returns rfl trivial
    rw [toJson_eq]
    simp only [ofJson?, Option.bind_eq_bind, Option.bind_eq_some_iff]
    exact ⟨r, taken, _, rfl, _, rfl, _, keywords, _, cohesion, _, symbolCount, _, memberIds, rfl⟩
  fitting j c proper read := by
    simp only [ofJson?, Option.bind_eq_bind, Option.bind_eq_some_iff, Option.some.injEq] at read
    obtain ⟨r, taken, id, -, name, -, keywords, -, cohesion, coheres, symbolCount, counts, members,
      -, rfl⟩ := read
    have properFields := Json.record?_proper proper taken
    exact ⟨exact_float.required properFields coheres, exact_count.required properFields counts⟩

end Community

namespace Flow

/-- The count of steps is in range. -/
structure InRange (f : Flow) : Prop where
  stepCount : f.stepCount < countBound

/-- The fields of a flow. -/
def fields (f : Flow) : List (String × Option Json) :=
  [("id", some (.str f.id)), ("name", some (.str f.name)), ("entryPoint", some (.str f.entryPoint)),
    ("terminalPoint", some (.str f.terminalPoint)), ("steps", some (Json.ofStrings f.steps)),
    ("stepCount", some (Json.ofNat f.stepCount)),
    ("crossCommunity", some (.bool f.crossCommunity))]

theorem toJson_eq (f : Flow) : f.toJson = .obj (Json.present f.fields) := rfl

theorem exact : Exact toJson ofJson? InRange where
  proper f inRange := by
    have stepCount := exact_count.proper f.stepCount inRange.stepCount
    have steps := exact_strings.proper f.steps trivial
    rw [toJson_eq]
    apply Json.present_proper
    simpa [fields, Json.Proper.str, Json.Proper.bool] using ⟨steps, stepCount⟩
  returns f inRange := by
    let r : Json.Record := ⟨f.fields.map Prod.snd, false⟩
    have taken : (Json.obj (Json.present f.fields)).record? fieldNames = some r :=
      Json.record?_present rfl (by decide)
    have steps : r.required 4 (Json.list? Json.str?) = some f.steps :=
      exact_strings.required_returns rfl trivial
    have stepCount : r.required 5 (Json.natBelow? countBound) = some f.stepCount :=
      exact_count.required_returns rfl inRange.stepCount
    rw [toJson_eq]
    simp only [ofJson?, Option.bind_eq_bind, Option.bind_eq_some_iff]
    exact ⟨r, taken, _, rfl, _, rfl, _, rfl, _, rfl, _, steps, _, stepCount, _, rfl, rfl⟩
  fitting j f proper read := by
    simp only [ofJson?, Option.bind_eq_bind, Option.bind_eq_some_iff, Option.some.injEq] at read
    obtain ⟨r, taken, id, -, name, -, entryPoint, -, terminalPoint, -, steps, -, stepCount, counts,
      crossCommunity, -, rfl⟩ := read
    exact ⟨exact_count.required (Json.record?_proper proper taken) counts⟩

end Flow

end CodeAtlas
