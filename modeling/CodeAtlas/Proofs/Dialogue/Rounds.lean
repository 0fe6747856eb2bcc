import CodeAtlas.Dialogue.Chat
import Mathlib.Data.List.Forall2

/-!
# Conversations stay well-formed

In every round but the last one the model calls tools. Such a round adds the model's reply to the
conversation and then one tool's message for each call of the reply, in order and under the call's
id; so what the model is given next continues what it was given before. The rounds end with the
first reply without a call, with a fault of the model or with the limit, and the trace lists the
calls of all rounds.
-/

namespace CodeAtlas

/-- What a round in which tools are called adds to a conversation: the reply of the model and the
messages of the tools. -/
structure Exchange where
  reply : Message
  results : List Message

/-- The messages of an exchange: the reply and the results of its calls. -/
def Exchange.messages (x : Exchange) : List Message :=
  x.reply :: x.results

namespace Chat

variable {answer : String → String → Except Fault String} {script : Nat → Except Fault Message}

/-! ### What is to hold -/

/-- A turn of the model that asks for tools to be called. -/
def Calls (turn : Except Fault Message) : Prop :=
  ∃ reply, turn = .ok reply ∧ reply.toolCalls ≠ []

/-- A tool's message tells what came of a call, be it a fault. -/
structure Tells (answer : String → String → Except Fault String) (c : ToolRequest)
    (m : Message) : Prop where
  role : m.role = .tool
  callId : m.toolCallId = some c.id
  noCalls : m.toolCalls = []
  result : ∀ text, answer c.name c.arguments = .ok text → m.content = text
  fault : ∀ e, answer c.name c.arguments = .error e → m.content = "Error: " ++ e.message

/-- An entry of a trace tells of a call in the round of some number and whether the call failed. -/
structure Logs (answer : String → String → Except Fault String) (call : Nat × ToolRequest)
    (t : AnsweredCall) : Prop where
  round : t.round = call.1
  callId : t.callId = call.2.id
  name : t.name = call.2.name
  arguments : t.arguments = call.2.arguments
  isError : t.isError = true ↔ ∃ e, answer call.2.name call.2.arguments = .error e

/-- The calls of exchanges that follow `done` rounds, each with the number of its round. -/
def numberedCalls (done : Nat) (exchanges : List Exchange) : List (Nat × ToolRequest) :=
  (exchanges.zipIdx done).flatMap fun (x, k) => x.reply.toolCalls.map (k + 1, ·)

/-- A trace lists the calls of exchanges in order, and its entries have the call ids and contents of
the tools' messages. -/
structure Traces (answer : String → String → Except Fault String) (done : Nat)
    (exchanges : List Exchange) (trace : List AnsweredCall) : Prop where
  calls : List.Forall₂ (Logs answer) (numberedCalls done exchanges) trace
  messages : trace.map (fun t => (some t.callId, t.result)) =
    (exchanges.flatMap Exchange.results).map fun m => (m.toolCallId, m.content)

/-- What the model is given, call by call, and the exchanges of the rounds in which tools were
called: the first conversation is made of the messages, and each later one continues the one
before. -/
structure Grows (answer : String → String → Except Fault String)
    (script : Nat → Except Fault Message) (messages : List Message) (exchanges : List Exchange)
    (asked : List (List Message)) : Prop where
  replies : ∀ k x, exchanges[k]? = some x → script k = .ok x.reply ∧ x.reply.toolCalls ≠ []
  results : ∀ x ∈ exchanges, List.Forall₂ (Tells answer) x.reply.toolCalls x.results
  /-- The instructions stand in front unless the messages start with some of their own. -/
  first : ∀ c, asked[0]? = some c →
    c = if messages.head?.map Message.role = some .system then messages
      else .ofText .system defaultInstructions :: messages
  next : ∀ k c later, asked[k]? = some c → asked[k + 1]? = some later →
    ∃ x, exchanges[k]? = some x ∧ later = c ++ x.reply :: x.results

/-- How a run over at most `limit` rounds ends after its exchanges. -/
structure Ends (answer : String → String → Except Fault String) (limit : Nat)
    (script : Nat → Except Fault Message) (exchanges : List Exchange) (report : Report) : Prop where
  asked_le : report.asked.length ≤ limit
  /-- The first reply without a call is returned as it is. -/
  answered : ∀ r reply, r < limit → (∀ k < r, Calls (script k)) → script r = .ok reply →
    reply.toolCalls = [] → exchanges.length = r ∧ report.asked.length = r + 1 ∧
      ∃ trace, report.outcome = .ok ⟨reply, trace, r + 1, false⟩
  exhausted : (∀ k < limit, Calls (script k)) →
    exchanges.length = limit ∧ report.asked.length = limit ∧
      ∃ trace, report.outcome =
        .ok ⟨.ofText .assistant (closing limit trace), trace, limit, true⟩
  /-- The first fault of the model is that of the run. -/
  fault : ∀ r e, r < limit → (∀ k < r, Calls (script k)) → script r = .error e →
    exchanges.length = r ∧ report.asked.length = r + 1 ∧ report.outcome = .error e
  trace : ∀ outcome, report.outcome = .ok outcome → Traces answer 0 exchanges outcome.toolCalls

/-! ### One round -/

theorem answerCall_tells (round : Nat) (c : ToolRequest) :
    Tells answer c (answerCall answer round c).message := by
  unfold answerCall
  cases known : answer c.name c.arguments with
  | ok text =>
    constructor <;> simp [AnsweredCall.message, Message.ofToolResult, Message.ofText, known]
  | error e =>
    constructor <;> simp [AnsweredCall.message, Message.ofToolResult, Message.ofText, known]

theorem answerCall_logs (round : Nat) (c : ToolRequest) :
    Logs answer (round, c) (answerCall answer round c) := by
  unfold answerCall
  cases known : answer c.name c.arguments with
  | ok text => constructor <;> simp [known]
  | error e => constructor <;> simp [known]

/-- The exchange of a round: the calls of the reply are answered in order. -/
def exchangeOf (answer : String → String → Except Fault String) (round : Nat) (reply : Message) :
    Exchange :=
  ⟨reply, (reply.toolCalls.map (answerCall answer round)).map AnsweredCall.message⟩

theorem exchangeOf_results (round : Nat) (reply : Message) :
    List.Forall₂ (Tells answer) reply.toolCalls (exchangeOf answer round reply).results := by
  simp only [exchangeOf, List.forall₂_map_right_iff, List.forall₂_same]
  intro c _
  exact answerCall_tells round c

/-! ### Several rounds -/

/-- Exchanges that follow `done` rounds, with their calls. -/
inductive Rounds (answer : String → String → Except Fault String)
    (script : Nat → Except Fault Message) : Nat → List Exchange → List AnsweredCall → Prop
  | none (done : Nat) : Rounds answer script done [] []
  | round {done : Nat} {reply : Message} {exchanges : List Exchange} {trace : List AnsweredCall} :
      script done = .ok reply → reply.toolCalls ≠ [] →
      Rounds answer script (done + 1) exchanges trace →
      Rounds answer script done (exchangeOf answer (done + 1) reply :: exchanges)
        (reply.toolCalls.map (answerCall answer (done + 1)) ++ trace)

section

variable {done : Nat} {exchanges : List Exchange} {trace : List AnsweredCall}

theorem Rounds.replies (rounds : Rounds answer script done exchanges trace) (k : Nat) (x : Exchange)
    (found : exchanges[k]? = some x) :
    script (done + k) = .ok x.reply ∧ x.reply.toolCalls ≠ [] := by
  induction rounds generalizing k with
  | none => simp at found
  | @round done reply _ _ replied calls _ ih =>
    cases k with
    | zero =>
      obtain rfl : exchangeOf answer (done + 1) reply = x := by simpa using found
      exact ⟨replied, calls⟩
    | succ k =>
      have later := ih k (by simpa using found)
      rwa [Nat.add_right_comm] at later

theorem Rounds.results (rounds : Rounds answer script done exchanges trace) :
    ∀ x ∈ exchanges, List.Forall₂ (Tells answer) x.reply.toolCalls x.results := by
  induction rounds with
  | none => simp
  | @round done reply _ _ _ _ _ ih =>
    intro x member
    rcases List.mem_cons.mp member with rfl | later
    · exact exchangeOf_results (done + 1) reply
    · exact ih x later

theorem Rounds.traces (rounds : Rounds answer script done exchanges trace) :
    Traces answer done exchanges trace := by
  induction rounds with
  | none => exact ⟨by simp [numberedCalls], by simp⟩
  | @round done reply _ _ _ _ _ ih =>
    refine ⟨?_, ?_⟩
    · have here : List.Forall₂ (Logs answer) (reply.toolCalls.map (done + 1, ·))
          (reply.toolCalls.map (answerCall answer (done + 1))) := by
        simp only [List.forall₂_map_left_iff, List.forall₂_map_right_iff, List.forall₂_same]
        intro c _
        exact answerCall_logs (done + 1) c
      simpa [numberedCalls, exchangeOf] using List.rel_append here ih.calls
    · have messages := ih.messages
      simp [exchangeOf, messages, AnsweredCall.message, Message.ofToolResult, Message.ofText]

/-- The conversation after the first `k` of some exchanges. -/
def conversationAt (first : List Message) (exchanges : List Exchange) (k : Nat) : List Message :=
  first ++ (exchanges.take k).flatMap Exchange.messages

/-- A model that takes its turns from a script, each within the budget, and whose caller waits. -/
def Follows (model : LanguageModel) (budget : Nat) (script : Nat → Except Fault Message) : Prop :=
  ∀ n, (model n).outcome budget = script n ∧ (model n).givesUp = false

variable {budget : Nat} {model : LanguageModel}

/-- A run goes through the exchanges first. -/
theorem Rounds.runFrom_eq (follows : Follows model budget script)
    (rounds : Rounds answer script done exchanges trace) (left : Nat)
    (conversation : List Message) (traces : List AnsweredCall) (later : Report)
    (rest : runFrom answer budget model left (done + exchanges.length)
      (conversationAt conversation exchanges exchanges.length) (traces ++ trace) = later) :
    runFrom answer budget model (exchanges.length + left) done conversation traces =
      ⟨later.outcome,
        (List.range exchanges.length).map (conversationAt conversation exchanges) ++
          later.asked⟩ := by
  induction rounds generalizing conversation traces with
  | none => simpa [conversationAt] using rest
  | @round done reply exchanges trace replied calls _ ih =>
    obtain ⟨outcome, waits⟩ := follows done
    have goesOn := ih (conversation ++ (exchangeOf answer (done + 1) reply).messages)
      (traces ++ reply.toolCalls.map (answerCall answer (done + 1)))
      (by simpa [conversationAt, Nat.add_right_comm, Nat.add_assoc] using rest)
    have count : (exchangeOf answer (done + 1) reply :: exchanges).length + left =
        exchanges.length + left + 1 := by
      simp only [List.length_cons]
      omega
    rw [count]
    simp only [runFrom, outcome, replied, waits, List.isEmpty_iff, calls, Bool.false_eq_true,
      if_false]
    simp only [Exchange.messages, exchangeOf] at goesOn
    rw [goesOn]
    simp [List.range_succ_eq_map, conversationAt, Exchange.messages, exchangeOf,
      Function.comp_def]

end

theorem exists_rounds (answer : String → String → Except Fault String) (n done : Nat)
    (calls : ∀ k < n, Calls (script (done + k))) :
    ∃ exchanges trace, exchanges.length = n ∧ Rounds answer script done exchanges trace := by
  induction n generalizing done with
  | zero => exact ⟨[], [], rfl, .none done⟩
  | succ n ih =>
    obtain ⟨reply, replied, nonempty⟩ := calls 0 (Nat.succ_pos n)
    have callsLater : ∀ k < n, Calls (script (done + 1 + k)) := by
      intro k below
      have here := calls (k + 1) (Nat.succ_lt_succ below)
      rwa [Nat.add_comm k 1, ← Nat.add_assoc] at here
    obtain ⟨exchanges, trace, length, rounds⟩ := ih (done + 1) callsLater
    exact ⟨_, _, by simp [length], .round replied nonempty rounds⟩

/-- Tools are called in every round, or there is a first round in which none is. -/
theorem exists_ending (script : Nat → Except Fault Message) (limit : Nat) :
    (∀ k < limit, Calls (script k)) ∨
      ∃ r < limit, (∀ k < r, Calls (script k)) ∧ ¬ Calls (script r) := by
  induction limit with
  | zero => exact .inl (by simp)
  | succ limit ih =>
    rcases ih with all | ⟨r, below, calls, ends⟩
    · by_cases last : Calls (script limit)
      · left
        intro k below
        rcases Nat.lt_succ_iff_lt_or_eq.mp below with earlier | rfl
        · exact all k earlier
        · exact last
      · exact .inr ⟨limit, Nat.lt_succ_self limit, all, last⟩
    · exact .inr ⟨r, Nat.lt_succ_of_lt below, calls, ends⟩

theorem ending_unique {r n : Nat} (calls : ∀ k < r, Calls (script k)) (ends : ¬ Calls (script r))
    (calls' : ∀ k < n, Calls (script k)) (ends' : ¬ Calls (script n)) : r = n := by
  rcases Nat.lt_trichotomy r n with before | same | after
  · exact absurd (calls' r before) ends
  · exact same
  · exact absurd (calls n after) ends'

theorem not_calls_of_answer {reply : Message} {turn : Except Fault Message}
    (replied : turn = .ok reply) (none : reply.toolCalls = []) : ¬ Calls turn := by
  rintro ⟨other, same, nonempty⟩
  rw [replied] at same
  obtain rfl := Except.ok.inj same
  exact nonempty none

theorem not_calls_of_fault {e : Fault} {turn : Except Fault Message} (failed : turn = .error e) :
    ¬ Calls turn := by
  rintro ⟨reply, same, -⟩
  rw [failed] at same
  cases same

/-! ### Whole runs -/

theorem opening_eq (messages : List Message) :
    opening messages = if messages.head?.map Message.role = some .system then messages
      else .ofText .system defaultInstructions :: messages := by
  cases messages with
  | nil => rfl
  | cons m rest => simp [opening]

section

variable {exchanges : List Exchange} {trace : List AnsweredCall} {messages : List Message}

theorem of_getElem?_map_range {α : Type} {f : Nat → α} {count k : Nat} {a : α}
    (found : ((List.range count).map f)[k]? = some a) : k < count ∧ a = f k := by
  obtain ⟨inside, rfl⟩ := List.getElem?_eq_some_iff.mp found
  exact ⟨by simpa using inside, by simp⟩

/-- The conversations before exchanges, and the one after them, grow by the exchanges. -/
theorem Rounds.grows (rounds : Rounds answer script 0 exchanges trace) (count : Nat)
    (few : count ≤ exchanges.length + 1) :
    Grows answer script messages exchanges
      ((List.range count).map (conversationAt (opening messages) exchanges)) := by
  constructor
  case replies =>
    intro k x found
    have here := rounds.replies k x found
    rwa [Nat.zero_add] at here
  case results => exact rounds.results
  case first =>
    intro c asked
    obtain ⟨-, rfl⟩ := of_getElem?_map_range asked
    rw [← opening_eq]
    simp [conversationAt]
  case next =>
    intro k c later asked askedLater
    obtain ⟨-, rfl⟩ := of_getElem?_map_range asked
    obtain ⟨below, rfl⟩ := of_getElem?_map_range askedLater
    have inside : k < exchanges.length := by omega
    refine ⟨exchanges[k], List.getElem?_eq_getElem inside, ?_⟩
    have longer : exchanges.take (k + 1) = exchanges.take k ++ [exchanges[k]] := by
      rw [List.take_add_one, List.getElem?_eq_getElem inside]
      rfl
    rw [conversationAt, longer, List.flatMap_append, List.flatMap_singleton, ← List.append_assoc]
    rfl

variable {budget limit : Nat} {model : LanguageModel}

/-- A turn in which no tool is called is the last one. -/
theorem runFrom_last (follows : Follows model budget script) (left done : Nat)
    (conversation : List Message) (traces : List AnsweredCall) (ends : ¬ Calls (script done)) :
    runFrom answer budget model (left + 1) done conversation traces =
      ⟨(script done).map fun reply => ⟨reply, traces, done + 1, false⟩, [conversation]⟩ := by
  have outcome := (follows done).1
  cases turn : script done with
  | error e => simp [runFrom, outcome, turn, Except.map]
  | ok reply =>
    have none : reply.toolCalls = [] := by
      by_contra nonempty
      exact ends ⟨reply, turn, nonempty⟩
    simp [runFrom, outcome, turn, none, Except.map]

/-- Where tools are called in all rounds, the rounds are used up. -/
theorem Rounds.ends_exhausted (rounds : Rounds answer script 0 exchanges trace)
    (calls : ∀ k < exchanges.length, Calls (script k)) {asked : List (List Message)}
    (length : asked.length = exchanges.length) :
    Ends answer exchanges.length script exchanges
      ⟨.ok ⟨.ofText .assistant (closing exchanges.length trace), trace, exchanges.length, true⟩,
        asked⟩ := by
  constructor
  case asked_le => exact Nat.le_of_eq length
  case answered =>
    intro r reply below _ replied none
    exact absurd (calls r below) (not_calls_of_answer replied none)
  case exhausted =>
    intro _
    exact ⟨rfl, length, trace, rfl⟩
  case fault =>
    intro r e below _ failed
    exact absurd (calls r below) (not_calls_of_fault failed)
  case trace =>
    intro outcome same
    obtain rfl := Except.ok.inj same
    exact rounds.traces

/-- Where there is a first turn in which no tool is called, it decides how the run ends. -/
theorem Rounds.ends_last (rounds : Rounds answer script 0 exchanges trace)
    (below : exchanges.length < limit) (calls : ∀ k < exchanges.length, Calls (script k))
    (ends : ¬ Calls (script exchanges.length)) {asked : List (List Message)}
    (length : asked.length = exchanges.length + 1) :
    Ends answer limit script exchanges
      ⟨(script exchanges.length).map fun reply => ⟨reply, trace, exchanges.length + 1, false⟩,
        asked⟩ := by
  constructor
  case asked_le =>
    show asked.length ≤ limit
    omega
  case answered =>
    intro r reply _ callsBefore replied none
    obtain rfl := ending_unique callsBefore (not_calls_of_answer replied none) calls ends
    exact ⟨rfl, length, trace, by simp [replied, Except.map]⟩
  case exhausted =>
    intro all
    exact absurd (all exchanges.length below) ends
  case fault =>
    intro r e _ callsBefore failed
    obtain rfl := ending_unique callsBefore (not_calls_of_fault failed) calls ends
    exact ⟨rfl, length, by simp [failed, Except.map]⟩
  case trace =>
    intro outcome same
    cases turn : script exchanges.length with
    | error e => simp [turn, Except.map] at same
    | ok reply =>
      obtain rfl : _ = outcome := by simpa [turn, Except.map] using same
      exact rounds.traces

end

/-- A run with a model that takes its turns in time, and whose caller waits, grows the conversation
by well-formed exchanges and ends as the model's turns say. -/
theorem run_conducted (tools : Toolbox) (workspace : Workspace) (settings : AgentSettings)
    (model : LanguageModel) (messages : List Message)
    (patient : ∀ n, (model n).delay ≤ settings.timeoutSecs * 1000 ∧ (model n).givesUp = false) :
    ∃ exchanges,
      Grows (tools.answer workspace) (fun n => (model n).result) messages exchanges
          (run tools workspace settings model false messages).asked ∧
        Ends (tools.answer workspace) settings.maxRounds (fun n => (model n).result) exchanges
          (run tools workspace settings model false messages) := by
  have follows : Follows model (settings.timeoutSecs * 1000) (fun n => (model n).result) := by
    intro n
    exact ⟨by simp [ModelTurn.outcome, (patient n).1], (patient n).2⟩
  have start : run tools workspace settings model false messages =
      runFrom (tools.answer workspace) (settings.timeoutSecs * 1000) model settings.maxRounds 0
        (opening messages) [] := by simp [run]
  rw [start]
  generalize settings.maxRounds = limit
  rcases exists_ending (fun n => (model n).result) limit with calls | ⟨r, below, calls, ends⟩
  · obtain ⟨exchanges, trace, rfl, rounds⟩ :=
      exists_rounds (tools.answer workspace) limit 0 (by simpa using calls)
    have report := rounds.runFrom_eq follows 0 (opening messages) [] _ rfl
    simp only [Nat.add_zero, Nat.zero_add, runFrom, List.nil_append, List.append_nil] at report
    rw [report]
    exact ⟨exchanges, rounds.grows _ (Nat.le_succ _), rounds.ends_exhausted calls (by simp)⟩
  · obtain ⟨exchanges, trace, rfl, rounds⟩ :=
      exists_rounds (tools.answer workspace) r 0 (by simpa using calls)
    obtain ⟨left, rfl⟩ : ∃ left, limit = exchanges.length + (left + 1) :=
      ⟨limit - exchanges.length - 1, by omega⟩
    have report := rounds.runFrom_eq follows (left + 1) (opening messages) [] _
      (runFrom_last follows left _ _ _ (by simpa using ends))
    have asked : (List.range exchanges.length).map (conversationAt (opening messages) exchanges) ++
        [conversationAt (opening messages) exchanges exchanges.length] =
        (List.range (exchanges.length + 1)).map
          (conversationAt (opening messages) exchanges) := by simp [List.range_succ]
    simp only [Nat.zero_add, List.nil_append, asked] at report
    rw [report]
    exact ⟨exchanges, rounds.grows _ (Nat.le_refl _), rounds.ends_last below calls ends (by simp)⟩

/-- A model that calls a tool that there is not, and then answers as late as it may. -/
theorem run_conducted_unknownTool :
    let request : ToolRequest := ⟨"c1", "function", "drop_tables", "\x7b\x7d"⟩
    let reply := Message.ofText .assistant "there is no such tool"
    let model : LanguageModel := fun n =>
      if n = 0 then ⟨10, .ok ⟨.assistant, "", [request], none⟩, false⟩ else ⟨1000, .ok reply, false⟩
    let report := run .standard (.ofGraph ⟨"owner", "name", "main", [], [], [], []⟩ {})
      { timeoutSecs := 1 } model false [.ofText .user "drop the tables"]
    (∀ n, (model n).delay ≤ 1 * 1000 ∧ (model n).givesUp = false) ∧
      report.asked.length = 2 ∧ ∃ trace, report.outcome = .ok ⟨reply, trace, 2, false⟩ := by
  intro request reply model report
  have patient : ∀ n, (model n).delay ≤ 1 * 1000 ∧ (model n).givesUp = false := by
    intro n
    by_cases first : n = 0
    · simp [model, first]
    · simp [model, first]
  obtain ⟨exchanges, -, ends⟩ :=
    run_conducted .standard (.ofGraph ⟨"owner", "name", "main", [], [], [], []⟩ {})
      { timeoutSecs := 1 } model [.ofText .user "drop the tables"] patient
  have calls : ∀ k < 1, Calls (model k).result := by
    intro k below
    obtain rfl := Nat.lt_one_iff.mp below
    exact ⟨⟨.assistant, "", [request], none⟩, rfl, by simp⟩
  obtain ⟨-, asked, outcome⟩ := ends.answered 1 reply (by decide) calls rfl rfl
  exact ⟨patient, asked, outcome⟩

end Chat

end CodeAtlas
