import CodeAtlas.Dialogue.Toolbox
import Mathlib.Data.List.Nodup
import Std.Data.TreeMap.Lemmas

/-!
# Every declared tool can be called

A toolbox keeps what it declares to a model apart from what answers the calls. Adding a tool changes
both or neither, so that the names that are declared are those that have a handler, whatever tools
are offered in whatever order. A toolbox that is complete has a handler for every call that can be
read, and the handlers of the standard one are never given the call of another tool.
-/

namespace CodeAtlas

/-- The handler is the one for a question. -/
inductive Handler.Serves : Handler → Tool → Prop
  | search (query : String) (limit : Option Nat) : Serves Handler.search (.search query limit)
  | context (nodeId : String) : Serves Handler.context (.context nodeId)
  | impact (symbolIds : List String) : Serves Handler.impact (.impact symbolIds)
  | overview : Serves Handler.overview .overview

namespace Toolbox

/-- The tools that are accepted of those that are offered one after the other. -/
def accepted (t : Toolbox) :
    List (ToolDeclaration × Handler) → List (ToolDeclaration × Handler)
  | [] => []
  | tool :: rest =>
    match t.add tool.1 tool.2 with
    | .ok u => tool :: u.accepted rest
    | .error _ => t.accepted rest

/-- Declarations and handlers go together. -/
structure InStep (t : Toolbox) : Prop where
  distinct : t.names.Nodup
  handled : ∀ name, (t.handler? name).isSome = true ↔ name ∈ t.names

/-- A call fails as its reading does, and what is read is answered by the handler of its name. -/
structure Dispatches (t : Toolbox) (w : Workspace) (name arguments : String) : Prop where
  unread : ∀ e, Tool.parse name arguments = .error e → t.answer w name arguments = .error e
  read : ∀ tool, Tool.parse name arguments = .ok tool →
    ∃ handler, t.handler? name = some handler ∧ t.answer w name arguments = handler w tool

/-- A call that is read reaches the handler for its question, and no other one. -/
structure ReachesOwn (t : Toolbox) (w : Workspace) (name arguments : String) : Prop where
  serves : ∀ tool, Tool.parse name arguments = .ok tool →
    ∃ handler, t.handler? tool.name = some handler ∧ handler.Serves tool
  fits : ∀ expected other, t.answer w name arguments ≠ .error (Handler.wrongTool expected other)

/-- What holds of a toolbox to which tools have been offered one after the other. -/
structure Filled (start : Toolbox) (tools : List (ToolDeclaration × Handler)) (t : Toolbox) :
    Prop where
  inStep : t.InStep
  order : t.declarations = start.declarations ++ (start.accepted tools).map Prod.fst
  accepts : ∀ tool : ToolDeclaration × Handler,
    (∃ u, t.add tool.1 tool.2 = .ok u) ↔ tool.1.name ∉ t.names
  refuses : ∀ (tool : ToolDeclaration × Handler) e, t.add tool.1 tool.2 = .error e →
    (t.offer tool).declarations = t.declarations ∧ (t.offer tool).handlers = t.handlers
  complete : t.checkComplete = .ok () ↔
    ∀ name, name ∈ t.names ↔ name ∈ ["search", "context", "impact", "overview"]
  answers : t.checkComplete = .ok () → ∀ w name arguments, t.Dispatches w name arguments

/-! ### Adding a tool -/

variable {t u : Toolbox} {tool : ToolDeclaration × Handler}

theorem contains_handlers (t : Toolbox) (name : String) :
    t.handlers.contains name = (t.handler? name).isSome :=
  Std.TreeMap.contains_eq_isSome_getElem?

/-- A tool is added under a name without a handler, as the last one and with its handler. -/
theorem add_eq_ok_iff : t.add tool.1 tool.2 = .ok u ↔ t.handler? tool.1.name = none ∧
    u = ⟨t.declarations ++ [tool.1], t.handlers.insert tool.1.name tool.2⟩ := by
  rw [add, contains_handlers]
  cases t.handler? tool.1.name <;> simp [eq_comm]

theorem offer_of_ok (added : t.add tool.1 tool.2 = .ok u) : t.offer tool = u := by
  rw [offer, added]

theorem offer_of_error {e : Fault} (refused : t.add tool.1 tool.2 = .error e) :
    t.offer tool = t := by
  rw [offer, refused]

theorem handler?_add (added : t.add tool.1 tool.2 = .ok u) (name : String) :
    u.handler? name = if tool.1.name = name then some tool.2 else t.handler? name := by
  obtain ⟨-, rfl⟩ := add_eq_ok_iff.mp added
  simp [handler?, Std.TreeMap.getElem?_insert]

theorem InStep.exists_add_iff (inStep : t.InStep) (tool : ToolDeclaration × Handler) :
    (∃ u, t.add tool.1 tool.2 = .ok u) ↔ tool.1.name ∉ t.names := by
  simp [← inStep.handled, add_eq_ok_iff]

theorem InStep.add (inStep : t.InStep) (added : t.add tool.1 tool.2 = .ok u) : u.InStep := by
  have isNew := (inStep.exists_add_iff tool).mp ⟨u, added⟩
  constructor
  case distinct =>
    rw [names_add added]
    exact inStep.distinct.append (List.nodup_singleton _) (by simpa using isNew)
  case handled =>
    intro name
    rw [handler?_add added, names_add added]
    by_cases same : tool.1.name = name
    · simp [same]
    · simp [same, inStep.handled, Ne.symm same]

theorem InStep.offer (inStep : t.InStep) (tool : ToolDeclaration × Handler) :
    (t.offer tool).InStep := by
  cases result : t.add tool.1 tool.2 with
  | error e =>
    rw [offer_of_error result]
    exact inStep
  | ok u =>
    rw [offer_of_ok result]
    exact inStep.add result

/-! ### Adding several tools -/

theorem InStep.offerAll (inStep : t.InStep) (tools : List (ToolDeclaration × Handler)) :
    (t.offerAll tools).InStep := by
  induction tools generalizing t with
  | nil => exact inStep
  | cons tool rest ih => exact ih (inStep.offer tool)

theorem inStep_empty : empty.InStep := by
  constructor
  case distinct => exact List.nodup_nil
  case handled => simp [handler?, names, empty]

theorem inStep_standard : standard.InStep :=
  inStep_empty.offerAll _

/-- The declarations are those that were there and those that are accepted, in this order. -/
theorem declarations_offerAll (t : Toolbox) (tools : List (ToolDeclaration × Handler)) :
    (t.offerAll tools).declarations = t.declarations ++ (t.accepted tools).map Prod.fst := by
  induction tools generalizing t with
  | nil => simp [offerAll, accepted]
  | cons tool rest ih =>
    rw [offerAll, List.foldl_cons, ← offerAll, ih, offer, accepted]
    cases result : t.add tool.1 tool.2 with
    | error e => rfl
    | ok u =>
      obtain ⟨-, rfl⟩ := add_eq_ok_iff.mp result
      simp

/-- A handler stays, whatever else is offered. -/
theorem handler?_offerAll {name : String} {handler : Handler}
    (found : t.handler? name = some handler) (tools : List (ToolDeclaration × Handler)) :
    (t.offerAll tools).handler? name = some handler := by
  induction tools generalizing t with
  | nil => exact found
  | cons tool rest ih =>
    refine ih ?_
    cases result : t.add tool.1 tool.2 with
    | error e => rwa [offer_of_error result]
    | ok u =>
      rw [offer_of_ok result]
      have free : tool.1.name ≠ name := by
        rintro rfl
        cases found.symm.trans (add_eq_ok_iff.mp result).1
      exact (handler?_add result name).trans (by rw [if_neg free, found])

/-- What is accepted is answered by the handler it was accepted with. -/
theorem handler?_of_accepted {tools : List (ToolDeclaration × Handler)}
    (member : tool ∈ t.accepted tools) :
    (t.offerAll tools).handler? tool.1.name = some tool.2 := by
  induction tools generalizing t with
  | nil => cases member
  | cons first rest ih =>
    rw [offerAll, List.foldl_cons, ← offerAll]
    cases result : t.add first.1 first.2 with
    | error e =>
      rw [accepted, result] at member
      rw [offer_of_error result]
      exact ih member
    | ok u =>
      rw [accepted, result] at member
      rw [offer_of_ok result]
      rcases List.mem_cons.mp member with rfl | later
      · exact handler?_offerAll ((handler?_add result _).trans (if_pos rfl)) rest
      · exact ih later

/-- Tools under names of their own are all accepted. -/
theorem InStep.accepted_eq (inStep : t.InStep) {tools : List (ToolDeclaration × Handler)}
    (distinct : (t.names ++ tools.map fun tool => tool.1.name).Nodup) :
    t.accepted tools = tools := by
  induction tools generalizing t with
  | nil => rfl
  | cons tool rest ih =>
    rw [List.map_cons, List.append_cons] at distinct
    have isNew : tool.1.name ∉ t.names := by
      intro taken
      have apart := (List.nodup_append.mp distinct.of_append_left).2.2
      exact apart _ taken _ (List.mem_singleton_self _) rfl
    obtain ⟨u, added⟩ := (inStep.exists_add_iff tool).mpr isNew
    rw [← names_add added] at distinct
    simp only [accepted, added, ih (inStep.add added) distinct]

/-! ### Complete toolboxes -/

theorem lack?_eq_none_iff {name : String} :
    t.lack? name = none ↔ name ∈ t.names ∧ (t.handler? name).isSome = true := by
  rw [lack?, contains_handlers]
  by_cases declared : name ∈ t.names
  · cases t.handler? name <;> simp [declared]
  · simp [declared]

/-- A complete toolbox declares and answers the questions about a graph and nothing else. -/
theorem checkComplete_iff : t.checkComplete = .ok () ↔
    (∀ name ∈ Tool.names, name ∈ t.names ∧ (t.handler? name).isSome = true) ∧
      ∀ name ∈ t.names, name ∈ Tool.names := by
  have lacks : (∀ name ∈ Tool.names, name ∈ t.names ∧ (t.handler? name).isSome = true) ↔
      Tool.names.findSome? t.lack? = none := by
    simp only [List.findSome?_eq_none_iff, lack?_eq_none_iff]
  have extra : (∀ name ∈ t.names, name ∈ Tool.names) ↔
      t.names.find? (! Tool.names.contains ·) = none := by
    simp [List.find?_eq_none]
  rw [lacks, extra, checkComplete]
  cases Tool.names.findSome? t.lack? with
  | some message => simp
  | none => cases t.names.find? (! Tool.names.contains ·) <;> simp

theorem InStep.checkComplete_iff (inStep : t.InStep) :
    t.checkComplete = .ok () ↔ ∀ name, name ∈ t.names ↔ name ∈ Tool.names := by
  simp only [Toolbox.checkComplete_iff, inStep.handled, and_self]
  exact ⟨fun both name => ⟨both.2 name, both.1 name⟩,
    fun same => ⟨fun name => (same name).mpr, fun name => (same name).mp⟩⟩

end Toolbox

/-! ### Calls -/

namespace Tool

theorem name_mem_names (tool : Tool) : tool.name ∈ names := by
  cases tool <;> simp [names, name]

/-- A reader of arguments makes questions of one name. -/
def Reads (read : Json → Option Tool) (name : String) : Prop :=
  ∀ j tool, read j = some tool → tool.name = name

theorem searchOf?_reads : Reads searchOf? "search" := by
  intro j tool found
  simp only [searchOf?, Option.bind_eq_bind, Option.bind_eq_some_iff, Option.some.injEq] at found
  obtain ⟨-, -, query, -, limit, -, rfl⟩ := found
  rfl

theorem contextOf?_reads : Reads contextOf? "context" := by
  intro j tool found
  simp only [contextOf?, Option.bind_eq_bind, Option.bind_eq_some_iff,
    Option.map_eq_some_iff] at found
  obtain ⟨-, -, nodeId, -, rfl⟩ := found
  rfl

theorem impactOf?_reads : Reads impactOf? "impact" := by
  intro j tool found
  simp only [impactOf?, Option.bind_eq_bind, Option.bind_eq_some_iff,
    Option.map_eq_some_iff] at found
  obtain ⟨-, -, symbolIds, -, rfl⟩ := found
  rfl

theorem readArguments_cases (read : Json → Option Tool) (arguments : String) :
    readArguments read arguments = .error .serialization ∨
      ∃ j tool, read j = some tool ∧ readArguments read arguments = .ok tool := by
  unfold readArguments
  extract_lets text
  split
  · next tool found =>
    obtain ⟨j, -, made⟩ := Option.bind_eq_some_iff.mp found
    exact .inr ⟨j, tool, made, rfl⟩
  · exact .inl rfl

/-- A call is read as a question of its own name, or it cannot be read because of its arguments or
because there is no such tool. -/
theorem parse_cases (name arguments : String) :
    parse name arguments = .error .serialization ∨
      parse name arguments = .error (.notFound ("tool " ++ name)) ∨
      ∃ tool, tool.name = name ∧ parse name arguments = .ok tool := by
  have byReader : ∀ {read : Json → Option Tool}, Reads read name →
      readArguments read arguments = .error .serialization ∨
        ∃ tool, tool.name = name ∧ readArguments read arguments = .ok tool := by
    intro read reads
    rcases readArguments_cases read arguments with failed | ⟨j, tool, made, read⟩
    · exact .inl failed
    · exact .inr ⟨tool, reads j tool made, read⟩
  unfold parse
  split
  · exact (byReader searchOf?_reads).imp_right .inr
  · exact (byReader contextOf?_reads).imp_right .inr
  · exact (byReader impactOf?_reads).imp_right .inr
  · exact .inr (.inr ⟨overview, rfl, rfl⟩)
  · exact .inr (.inl rfl)

theorem name_of_parse {name arguments : String} {tool : Tool}
    (read : parse name arguments = .ok tool) : tool.name = name := by
  rcases parse_cases name arguments with failed | failed | ⟨other, named, same⟩
  · simp [read] at failed
  · simp [read] at failed
  · rw [read] at same
    rwa [Except.ok.inj same]

theorem parse_ne_config (name arguments message : String) :
    parse name arguments ≠ .error (.config message) := by
  rcases parse_cases name arguments with failed | failed | ⟨tool, -, read⟩
  · simp [failed]
  · simp [failed]
  · simp [read]

end Tool

theorem Surroundings.ofId_cases (g : RepoGraph) (ix : Adjacency) (id : String) :
    ofId g ix id = .error (.notFound ("node " ++ id)) ∨ ∃ found, ofId g ix id = .ok found := by
  unfold ofId
  split
  · split
    · exact .inr ⟨_, rfl⟩
    · exact .inl rfl
  · exact .inl rfl

/-- The handler for a question finds no fault with the question's kind. -/
theorem Handler.Serves.ne_config {handler : Handler} {tool : Tool} (serves : handler.Serves tool)
    (w : Workspace) (message : String) : handler w tool ≠ .error (.config message) := by
  cases serves with
  | search query limit => simp [Handler.search]
  | context nodeId =>
    rcases Surroundings.ofId_cases w.graph w.index nodeId with unknown | ⟨found, known⟩
    · simp [Handler.context, unknown, Except.map]
    · simp [Handler.context, known, Except.map]
  | impact symbolIds => simp [Handler.impact]
  | overview => simp [Handler.overview]

namespace Toolbox

variable {t : Toolbox}

theorem answer_of_parse {w : Workspace} {name arguments : String} {tool : Tool} {handler : Handler}
    (read : Tool.parse name arguments = .ok tool) (found : t.handler? tool.name = some handler) :
    t.answer w name arguments = handler w tool := by
  simp only [answer, read, found]

theorem answer_of_error {w : Workspace} {name arguments : String} {e : Fault}
    (failed : Tool.parse name arguments = .error e) : t.answer w name arguments = .error e := by
  simp only [answer, failed]

theorem dispatches_of_complete (complete : t.checkComplete = .ok ()) (w : Workspace)
    (name arguments : String) : t.Dispatches w name arguments := by
  constructor
  case unread => exact fun e failed => answer_of_error failed
  case read =>
    intro tool read
    obtain ⟨-, handled⟩ := (checkComplete_iff.mp complete).1 tool.name tool.name_mem_names
    obtain ⟨handler, found⟩ := Option.isSome_iff_exists.mp handled
    exact ⟨handler, by rwa [← Tool.name_of_parse read], answer_of_parse read found⟩

theorem InStep.filled {start : Toolbox} (inStep : start.InStep)
    (tools : List (ToolDeclaration × Handler)) : Filled start tools (start.offerAll tools) := by
  have after := inStep.offerAll tools
  constructor
  case inStep => exact after
  case order => exact declarations_offerAll start tools
  case accepts => exact after.exists_add_iff
  case refuses =>
    intro tool e refused
    rw [offer_of_error refused]
    exact ⟨rfl, rfl⟩
  case complete => exact after.checkComplete_iff
  case answers => exact fun complete => dispatches_of_complete complete

/-- The standard toolbox has the handler for every question under the question's name. -/
theorem handler?_standard (tool : Tool) :
    ∃ handler, standard.handler? tool.name = some handler ∧ handler.Serves tool := by
  have all : empty.accepted standardTools = standardTools :=
    inStep_empty.accepted_eq (by decide)
  have under : ∀ x ∈ standardTools, standard.handler? x.1.name = some x.2 :=
    fun x member => handler?_of_accepted (all ▸ member)
  cases tool with
  | search query limit =>
    exact ⟨.search, under (.search, .search) (.head _), .search query limit⟩
  | context nodeId =>
    exact ⟨.context, under (.context, .context) (.tail _ (.head _)), .context nodeId⟩
  | impact symbolIds =>
    exact ⟨.impact, under (.impact, .impact) (.tail _ (.tail _ (.head _))), .impact symbolIds⟩
  | overview =>
    exact ⟨.overview, under (.overview, .overview) (.tail _ (.tail _ (.tail _ (.head _)))),
      .overview⟩

/-- Whatever else is offered to the standard toolbox, its handlers are given their own calls. -/
theorem reachesOwn_standard (tools : List (ToolDeclaration × Handler)) (w : Workspace)
    (name arguments : String) : (standard.offerAll tools).ReachesOwn w name arguments := by
  have own : ∀ tool : Tool, ∃ handler,
      (standard.offerAll tools).handler? tool.name = some handler ∧ handler.Serves tool := by
    intro tool
    obtain ⟨handler, found, serves⟩ := handler?_standard tool
    exact ⟨handler, handler?_offerAll found tools, serves⟩
  constructor
  case serves => exact fun tool _ => own tool
  case fits =>
    intro expected other
    cases read : Tool.parse name arguments with
    | error e =>
      intro same
      rw [answer_of_error read] at same
      exact Tool.parse_ne_config name arguments _ (read.trans (congrArg _ (Except.error.inj same)))
    | ok tool =>
      obtain ⟨handler, found, serves⟩ := own tool
      rw [answer_of_parse read found]
      exact serves.ne_config w _

/-- Toolboxes that are filled from the empty or the standard one declare what they can answer, and a
complete one answers every call that can be read. -/
theorem offerAll_filled (tools : List (ToolDeclaration × Handler)) :
    Filled empty tools (empty.offerAll tools) ∧
      Filled standard tools (standard.offerAll tools) ∧
      ∀ w name arguments, (standard.offerAll tools).ReachesOwn w name arguments :=
  ⟨inStep_empty.filled tools, inStep_standard.filled tools, reachesOwn_standard tools⟩

end Toolbox

end CodeAtlas
