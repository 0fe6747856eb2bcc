import CodeAtlas.Proofs.Assembly.Integrity
import CodeAtlas.Proofs.Impact.Distance
import CodeAtlas.Proofs.Text.Tally
import CodeAtlas.Report.Summary
import CodeAtlas.Report.Surroundings

/-!
# The views of a graph agree

The context of a node, the summary of a graph and the impact of a change are read off the same edges
in three ways. Where the ids of the nodes differ, every edge joins two of them, at most one edge of a
kind leads from a node to another one, and files are not what is called or extended, all three say the
same of who depends on a node. Every assembled graph is such a graph.
-/

namespace CodeAtlas

/-! ### Agreement -/

/-- What a graph knows about the node with an id. -/
def RepoGraph.context (g : RepoGraph) (id : String) : Except Fault Surroundings :=
  Surroundings.ofId g (Adjacency.ofGraph g) id

/-- A node is listed with a certainty and a reason. -/
def Neighbour.Listed (neighbours : List Neighbour) (id : String) (confidence : Float)
    (reason : String) : Prop :=
  ∃ n ∈ neighbours, n.id = id ∧ n.confidence = confidence ∧ n.reason = reason

/-- Contexts agree with one another, and with the summary and the impacts of a graph. -/
structure RepoGraph.ViewsAgree (g : RepoGraph) : Prop where
  context : ∀ n ∈ g.nodes, ∃ c, g.context n.id = .ok c ∧ c.node = n
  /-- Whom a node calls is called by it. -/
  calls : ∀ a b ca cb, g.context a = .ok ca → g.context b = .ok cb → ∀ confidence reason,
    Neighbour.Listed ca.callees b confidence reason ↔
      Neighbour.Listed cb.callers a confidence reason
  once : ∀ a c, g.context a = .ok c →
    (c.callers.map Neighbour.id).Nodup ∧ (c.callees.map Neighbour.id).Nodup
  mostCalled : ∀ s ∈ (Summary.ofGraph g).mostCalled, ∃ c,
    g.context s.node.id = .ok c ∧ s.callers = c.callers.length
  /-- Directly affected by a symbol are its callers and what extends it. -/
  symbols : ∀ s ∈ g.nodes, s.isFile = false → ∀ c, g.context s.id = .ok c →
    ((Impact.ofChangeIn [s.id] g).depth1.map Affected.id).Nodup ∧
      ∀ id, id ∈ (Impact.ofChangeIn [s.id] g).depth1.map Affected.id ↔
        id ∈ c.callers.map Neighbour.id ∨
          ∃ e ∈ g.edges, e.kind = .extends ∧ e.source = id ∧ e.target = s.id
  /-- Directly affected by a file are the files that import it. -/
  files : ∀ f ∈ g.nodes, f.isFile = true → ∀ c, g.context f.id = .ok c →
    (Impact.ofChangeIn [f.id] g).depth1.map Affected.filePath = c.importedBy

/-! ### Graphs that are properly linked -/

/-- What the edges of a graph join: two of its nodes, at most once for each kind, and neither calls nor
extensions lead to files, nor imports to anything else. -/
structure RepoGraph.Linked (g : RepoGraph) : Prop where
  nodeIds : (g.nodes.map Node.id).Nodup
  known : ∀ e ∈ g.edges, e.source ∈ g.nodes.map Node.id ∧ e.target ∈ g.nodes.map Node.id
  proper : ∀ e ∈ g.edges, e.source ≠ e.target
  single : (g.edges.map fun e => (e.kind, e.source, e.target)).Nodup
  toSymbols : ∀ e ∈ g.edges, e.kind = .calls ∨ e.kind = .extends →
    ∀ n ∈ g.nodes, n.id = e.target → n.isFile = false
  toFiles : ∀ e ∈ g.edges, e.kind = .imports → ∀ n ∈ g.nodes, n.id = e.target → n.isFile = true

/-- The edges of some kinds that lead to an id. -/
def RepoGraph.entering (g : RepoGraph) (kinds : List EdgeKind) (id : String) : List Edge :=
  g.edges.filter fun e => e.kind ∈ kinds ∧ e.target = id

/-- The edges of some kinds that leave an id. -/
def RepoGraph.leaving (g : RepoGraph) (kinds : List EdgeKind) (id : String) : List Edge :=
  g.edges.filter fun e => e.kind ∈ kinds ∧ e.source = id

namespace RepoGraph

variable {g : RepoGraph} {id : String} {n : Node} {c : Surroundings} {i : Nat}

/-- The context of an id is that of the node which has it. -/
theorem context_ok (known : g.context id = .ok c) :
    ∃ n ∈ g.nodes, n.id = id ∧ ∃ i, (Adjacency.ofGraph g).position? id = some i ∧
      c = Surroundings.ofPosition g (Adjacency.ofGraph g) i n := by
  unfold context Surroundings.ofId at known
  cases found : (Adjacency.ofGraph g).position? id with
  | none => simp [found] at known
  | some i =>
    obtain ⟨n, here, same, -⟩ := Adjacency.node_of_position? found
    have node : (Adjacency.ofGraph g).node? i = some n := by
      simpa [Adjacency.node?, Adjacency.ofGraph, Adjacency.ofParts] using here
    simp only [found, node] at known
    exact ⟨n, List.mem_of_getElem? here, same, i, rfl, (Except.ok.inj known).symm⟩

namespace Linked

/-- The position of the id of a node is its own. -/
theorem position (linked : g.Linked) (member : n ∈ g.nodes) :
    ∃ i, (Adjacency.ofGraph g).position? n.id = some i ∧
      (Adjacency.ofGraph g).node? i = some n := by
  obtain ⟨i, found⟩ : ∃ i, (Adjacency.ofGraph g).position? n.id = some i :=
    Adjacency.exists_position?_iff.mpr (List.mem_map_of_mem member)
  obtain ⟨m, here, same, -⟩ := Adjacency.node_of_position? found
  obtain rfl := List.inj_on_of_nodup_map linked.nodeIds (List.mem_of_getElem? here) member same
  refine ⟨i, found, ?_⟩
  simpa [Adjacency.node?, Adjacency.ofGraph, Adjacency.ofParts] using here

theorem context (linked : g.Linked) (member : n ∈ g.nodes) :
    ∃ c, g.context n.id = .ok c ∧ c.node = n := by
  obtain ⟨i, found, node⟩ := linked.position member
  refine ⟨Surroundings.ofPosition g (Adjacency.ofGraph g) i n, ?_, rfl⟩
  simp [RepoGraph.context, Surroundings.ofId, found, node]

/-- The nodes of known ids are at their positions. -/
theorem node_position (linked : g.Linked) (known : id ∈ g.nodes.map Node.id) :
    ∃ i n, (Adjacency.ofGraph g).position? id = some i ∧
      (Adjacency.ofGraph g).node? i = some n ∧ n.id = id := by
  obtain ⟨n, member, rfl⟩ := List.mem_map.mp known
  obtain ⟨i, found, node⟩ := linked.position member
  exact ⟨i, n, found, node, rfl⟩

/-! ### Callers and callees -/

section

variable {kinds : List EdgeKind}

/-- The edges of some kinds with one of their ends at a position are those with its id there. -/
theorem scan_eq {near far : Edge → String} (found : (Adjacency.ofGraph g).position? id = some i) :
    (g.edges.filterMap fun e =>
        if e.kind ∈ kinds ∧ (Adjacency.ofGraph g).position? (near e) = some i then
          ((Adjacency.ofGraph g).position? (far e)).map (·, e)
        else none) =
      (g.edges.filter fun e => e.kind ∈ kinds ∧ near e = id).filterMap fun e =>
        ((Adjacency.ofGraph g).position? (far e)).map (·, e) := by
  rw [List.filterMap_filter]
  apply List.filterMap_congr
  intro e _
  have here : (Adjacency.ofGraph g).position? (near e) = some i ↔ near e = id :=
    ⟨fun position => Adjacency.position?_inj position found, fun same => same ▸ found⟩
  simp only [here, decide_eq_true_eq]

/-- A position is entered by the edges to its id. -/
theorem incoming_eq (found : (Adjacency.ofGraph g).position? id = some i) :
    (Adjacency.ofGraph g).incoming i kinds = (g.entering kinds id).filterMap fun e =>
      ((Adjacency.ofGraph g).position? e.source).map (·, e) :=
  (Adjacency.incoming_eq g.nodes g.edges i kinds).trans (scan_eq found)

/-- A position is left by the edges from its id. -/
theorem outgoing_eq (found : (Adjacency.ofGraph g).position? id = some i) :
    (Adjacency.ofGraph g).outgoing i kinds = (g.leaving kinds id).filterMap fun e =>
      ((Adjacency.ofGraph g).position? e.target).map (·, e) :=
  (Adjacency.outgoing_eq g.nodes g.edges i kinds).trans (scan_eq found)

/-- What tells a neighbour from the others: its id, and the edge's certainty and reason. -/
def key (x : Neighbour) : String × Float × String :=
  (x.id, x.confidence, x.reason)

/-- The neighbours at the ends of some edges are told by these. -/
theorem neighbours_keys (linked : g.Linked) {far : Edge → String} {es : List Edge}
    (known : ∀ e ∈ es, far e ∈ g.nodes.map Node.id) :
    (Surroundings.neighbours (Adjacency.ofGraph g) (es.filterMap fun e =>
        ((Adjacency.ofGraph g).position? (far e)).map (·, e))).map key =
      es.map fun e => (far e, e.confidence, e.reason) := by
  rw [Surroundings.neighbours, List.filterMap_filterMap, List.map_filterMap,
    ← List.filterMap_eq_map]
  apply List.filterMap_congr
  intro e member
  obtain ⟨j, m, position, node, same⟩ := linked.node_position (known e member)
  simp [position, node, key, Neighbour.ofEdge, same]

theorem callers_keys (linked : g.Linked) (known : g.context id = .ok c) :
    c.callers.map key = (g.entering [.calls] id).map fun e => (e.source, e.confidence, e.reason) := by
  obtain ⟨n, -, -, i, found, rfl⟩ := context_ok known
  have ends : ∀ e ∈ g.entering [.calls] id, e.source ∈ g.nodes.map Node.id :=
    fun e member => (linked.known e (List.mem_of_mem_filter member)).1
  rw [← linked.neighbours_keys ends, ← incoming_eq found]
  rfl

theorem callees_keys (linked : g.Linked) (known : g.context id = .ok c) :
    c.callees.map key = (g.leaving [.calls] id).map fun e => (e.target, e.confidence, e.reason) := by
  obtain ⟨n, -, -, i, found, rfl⟩ := context_ok known
  have ends : ∀ e ∈ g.leaving [.calls] id, e.target ∈ g.nodes.map Node.id :=
    fun e member => (linked.known e (List.mem_of_mem_filter member)).2
  rw [← linked.neighbours_keys ends, ← outgoing_eq found]
  rfl

theorem mem_entering {e : Edge} {kind : EdgeKind} :
    e ∈ g.entering [kind] id ↔ e ∈ g.edges ∧ e.kind = kind ∧ e.target = id := by
  simp [entering]

theorem mem_leaving {e : Edge} {kind : EdgeKind} :
    e ∈ g.leaving [kind] id ↔ e ∈ g.edges ∧ e.kind = kind ∧ e.source = id := by
  simp [leaving]

/-- Edges that are told by what is at their far ends have no far end twice. -/
theorem nodup_far (linked : g.Linked) {es : List Edge} (part : es.Sublist g.edges)
    {far : Edge → String} (whole : String → EdgeKind × String × String)
    (told : ∀ e ∈ es, whole (far e) = (e.kind, e.source, e.target)) : (es.map far).Nodup := by
  apply List.Nodup.of_map whole
  have alike : (es.map far).map whole = es.map fun e => (e.kind, e.source, e.target) := by
    rw [List.map_map]
    exact List.map_congr_left told
  rw [alike]
  exact linked.single.sublist (part.map _)

/-- No two edges of a kind that lead to one id come from one node. -/
theorem entering_once (linked : g.Linked) (kind : EdgeKind) :
    ((g.entering [kind] id).map Edge.source).Nodup := by
  refine linked.nodup_far List.filter_sublist (fun source => (kind, source, id)) fun e member => ?_
  obtain ⟨-, rfl, rfl⟩ := mem_entering.mp member
  rfl

/-- No two edges of a kind that leave one id lead to one node. -/
theorem leaving_once (linked : g.Linked) (kind : EdgeKind) :
    ((g.leaving [kind] id).map Edge.target).Nodup := by
  refine linked.nodup_far List.filter_sublist (fun target => (kind, id, target)) fun e member => ?_
  obtain ⟨-, rfl, rfl⟩ := mem_leaving.mp member
  rfl

theorem callers_ids (linked : g.Linked) (known : g.context id = .ok c) :
    c.callers.map Neighbour.id = (g.entering [.calls] id).map Edge.source := by
  have ids := congrArg (List.map Prod.fst) (linked.callers_keys known)
  rwa [List.map_map, List.map_map] at ids

theorem callees_ids (linked : g.Linked) (known : g.context id = .ok c) :
    c.callees.map Neighbour.id = (g.leaving [.calls] id).map Edge.target := by
  have ids := congrArg (List.map Prod.fst) (linked.callees_keys known)
  rwa [List.map_map, List.map_map] at ids

theorem listed_iff {neighbours : List Neighbour} {confidence : Float} {reason : String} :
    Neighbour.Listed neighbours id confidence reason ↔
      (id, confidence, reason) ∈ neighbours.map key := by
  simp [Neighbour.Listed, key]

/-- One node is listed as a caller of another one where that is listed as called by it. -/
theorem listed_comm (linked : g.Linked) {a b : String} {ca cb : Surroundings}
    (knownA : g.context a = .ok ca) (knownB : g.context b = .ok cb) (confidence : Float)
    (reason : String) : Neighbour.Listed ca.callees b confidence reason ↔
      Neighbour.Listed cb.callers a confidence reason := by
  rw [listed_iff, listed_iff, linked.callees_keys knownA, linked.callers_keys knownB]
  simp only [List.mem_map, mem_leaving, mem_entering, Prod.mk.injEq]
  constructor
  · rintro ⟨e, ⟨member, kind, source⟩, target, told⟩
    exact ⟨e, ⟨member, kind, target⟩, source, told⟩
  · rintro ⟨e, ⟨member, kind, target⟩, source, told⟩
    exact ⟨e, ⟨member, kind, source⟩, target, told⟩

/-! ### Counts -/

/-- The summary counts the callers of a symbol. -/
theorem mostCalled_eq (linked : g.Linked) {s : CallCount}
    (member : s ∈ (Summary.ofGraph g).mostCalled) :
    ∃ c, g.context s.node.id = .ok c ∧ s.callers = c.callers.length := by
  have listed : s ∈ Summary.calledSymbols g :=
    List.mem_mergeSort.mp (List.mem_of_mem_take member)
  obtain ⟨n, inNodes, counted⟩ := List.mem_filterMap.mp listed
  obtain ⟨⟨id, count⟩, found, rfl⟩ := Option.map_eq_some_iff.mp counted
  obtain rfl : id = n.id := by simpa using List.find?_some found
  obtain ⟨c, known, -⟩ := linked.context inNodes
  refine ⟨c, known, ?_⟩
  have exact := (Text.tally_counts ((g.edges.filter (·.kind == .calls)).map Edge.target)).exact _
    (List.mem_of_find?_eq_some found)
  have callers : c.callers.length = (g.entering [.calls] n.id).length := by
    simpa using congrArg List.length (linked.callers_ids known)
  rw [callers]
  refine exact.trans ?_
  rw [List.count, List.countP_map, List.countP_filter, List.countP_eq_length_filter, entering]
  congr 1
  apply List.filter_congr
  intro e _
  by_cases target : e.target = n.id <;> simp [target, Bool.beq_eq_decide_eq]

/-! ### Direct dependents -/

/-- A change of one id affects first what one step from its position reaches. -/
theorem depth1_eq (found : (Adjacency.ofGraph g).position? id = some i) :
    (Impact.ofChangeIn [id] g).depth1 =
      (Impact.newlyReached [i]
        ((Adjacency.ofGraph g).incoming i Impact.dependencyKinds)).1.filterMap
          (Impact.affected? (Adjacency.ofGraph g)) :=
  Impact.depth1_eq g.flows found

/-- An edge by which a position is entered comes from the other position. -/
theorem position_source {kinds : List EdgeKind} :
    ∀ x ∈ (Adjacency.ofGraph g).incoming i kinds,
      (Adjacency.ofGraph g).position? x.2.source = some x.1 :=
  fun _ member => (Adjacency.mem_incoming.mp member).2.2.1

/-- The edges by which a position is entered are those to its id. -/
theorem incoming_sources (linked : g.Linked) {kinds : List EdgeKind}
    (found : (Adjacency.ofGraph g).position? id = some i) :
    ((Adjacency.ofGraph g).incoming i kinds).map (·.2.source) =
      (g.entering kinds id).map Edge.source := by
  rw [incoming_eq found, List.map_filterMap, ← List.filterMap_eq_map]
  apply List.filterMap_congr
  intro e member
  obtain ⟨j, m, source, -, -⟩ :=
    linked.node_position (linked.known e (List.mem_of_mem_filter member)).1
  rw [source]
  rfl

/-- What one step reaches has come by edges into its position. -/
theorem position_reached : ∀ x ∈ (Impact.newlyReached [i]
      ((Adjacency.ofGraph g).incoming i Impact.dependencyKinds)).1,
    (Adjacency.ofGraph g).position? x.2.source = some x.1 :=
  fun x reached => position_source x ((Impact.newlyReached_sublist _ _).subset reached)

/-- A change of one id affects first, once each, the nodes with an edge of dependence to it. -/
theorem mem_depth1 (linked : g.Linked) (found : (Adjacency.ofGraph g).position? id = some i) :
    ((Impact.ofChangeIn [id] g).depth1.map Affected.id).Nodup ∧
      ∀ source, source ∈ (Impact.ofChangeIn [id] g).depth1.map Affected.id ↔
        ∃ e ∈ g.edges, e.kind ∈ Impact.dependencyKinds ∧ e.source = source ∧ e.target = id := by
  have ids := Impact.ids_affected (position_reached (g := g) (i := i))
  rw [depth1_eq found]
  refine ⟨Impact.nodup_affected position_reached (Impact.newlyReached_new _ _).1, ?_⟩
  intro source
  refine (iff_of_eq (congrArg (source ∈ ·) ids)).trans ?_
  rw [List.mem_map]
  constructor
  · rintro ⟨⟨j, e⟩, reached, rfl⟩
    obtain ⟨inEdges, kind, -, target⟩ :=
      Adjacency.mem_incoming.mp ((Impact.newlyReached_sublist _ _).subset reached)
    exact ⟨e, inEdges, kind, rfl, Adjacency.position?_inj target found⟩
  · rintro ⟨e, inEdges, kind, rfl, rfl⟩
    obtain ⟨j, m, source, -, -⟩ := linked.node_position (linked.known e inEdges).1
    have other : j ∉ [i] := by
      rw [List.mem_singleton]
      rintro rfl
      exact linked.proper e inEdges (Adjacency.position?_inj source found)
    have entering : (j, e) ∈ (Adjacency.ofGraph g).incoming i Impact.dependencyKinds :=
      Adjacency.mem_incoming.mpr ⟨inEdges, kind, source, found⟩
    have reached : j ∈ (Impact.newlyReached [i]
        ((Adjacency.ofGraph g).incoming i Impact.dependencyKinds)).1.map Prod.fst :=
      Impact.mem_newlyReached.mpr ⟨List.mem_map_of_mem entering, other⟩
    obtain ⟨x, inReached, rfl⟩ := List.mem_map.mp reached
    exact ⟨x, inReached, Adjacency.position?_inj (position_reached x inReached) source⟩

/-- A change of a symbol affects first its callers and what extends it. -/
theorem symbol_depth1 (linked : g.Linked) (member : n ∈ g.nodes) (symbol : n.isFile = false)
    (known : g.context n.id = .ok c) :
    ((Impact.ofChangeIn [n.id] g).depth1.map Affected.id).Nodup ∧
      ∀ id, id ∈ (Impact.ofChangeIn [n.id] g).depth1.map Affected.id ↔
        id ∈ c.callers.map Neighbour.id ∨
          ∃ e ∈ g.edges, e.kind = .extends ∧ e.source = id ∧ e.target = n.id := by
  obtain ⟨i, found, -⟩ := linked.position member
  obtain ⟨once, exact⟩ := linked.mem_depth1 found
  refine ⟨once, fun id => ?_⟩
  rw [exact, linked.callers_ids known]
  simp only [List.mem_map, mem_entering, Impact.mem_dependencyKinds]
  constructor
  · rintro ⟨e, inEdges, calls | imports | inherits, source, target⟩
    · exact .inl ⟨e, ⟨inEdges, calls, target⟩, source⟩
    · have isFile := linked.toFiles e inEdges imports n member target.symm
      simp [symbol] at isFile
    · exact .inr ⟨e, inEdges, inherits, source, target⟩
  · rintro (⟨e, ⟨inEdges, calls, target⟩, source⟩ | ⟨e, inEdges, inherits, source, target⟩)
    · exact ⟨e, inEdges, .inl calls, source, target⟩
    · exact ⟨e, inEdges, .inr (.inr inherits), source, target⟩

/-- Of a file only imports depend. -/
theorem entering_file (linked : g.Linked) (member : n ∈ g.nodes) (file : n.isFile = true) :
    g.entering Impact.dependencyKinds n.id = g.entering [.imports] n.id := by
  apply List.filter_congr
  intro e inEdges
  by_cases target : e.target = n.id
  · have noSymbol : ¬ (e.kind = .calls ∨ e.kind = .extends) := by
      intro kind
      have symbol := linked.toSymbols e inEdges kind n member target.symm
      simp [file] at symbol
    rw [not_or] at noSymbol
    simp [target, Impact.mem_dependencyKinds, noSymbol]
  · simp [target]

/-- A change of a file affects first the files that import it. -/
theorem file_depth1 (linked : g.Linked) (member : n ∈ g.nodes) (file : n.isFile = true)
    (known : g.context n.id = .ok c) :
    (Impact.ofChangeIn [n.id] g).depth1.map Affected.filePath = c.importedBy := by
  obtain ⟨m, inNodes, same, i, found, rfl⟩ := context_ok known
  obtain rfl := List.inj_on_of_nodup_map linked.nodeIds inNodes member same
  have entering : (Adjacency.ofGraph g).incoming i Impact.dependencyKinds =
      (Adjacency.ofGraph g).incoming i [.imports] := by
    rw [incoming_eq found, incoming_eq found, linked.entering_file member file]
  have distinct : (((Adjacency.ofGraph g).incoming i [.imports]).map Prod.fst).Nodup := by
    apply List.Nodup.of_map (Adjacency.ofGraph g).idAt
    have sources : (((Adjacency.ofGraph g).incoming i [.imports]).map Prod.fst).map
        (Adjacency.ofGraph g).idAt = (g.entering [.imports] m.id).map Edge.source := by
      rw [← linked.incoming_sources found, List.map_map]
      exact List.map_congr_left fun x entered =>
        Adjacency.idAt_of_position? (position_source x entered)
    rw [sources]
    exact linked.entering_once .imports
  have fresh : ∀ x ∈ (Adjacency.ofGraph g).incoming i [.imports], x.1 ∉ [i] := by
    intro x entered
    obtain ⟨inEdges, -, source, target⟩ := Adjacency.mem_incoming.mp entered
    rw [List.mem_singleton]
    intro loop
    rw [loop] at source
    exact linked.proper x.2 inEdges (Adjacency.position?_inj source target)
  rw [depth1_eq found, entering, Impact.newlyReached_eq distinct fresh]
  obtain ⟨j, found', node⟩ := linked.position member
  obtain rfl := Option.some.inj (found.symm.trans found')
  have home : (Adjacency.ofGraph g).fileOf? i = some i := by
    simp [Adjacency.fileOf?, node, file]
  rw [List.map_filterMap]
  simp only [Surroundings.ofPosition, home, Surroundings.paths]
  apply List.filterMap_congr
  intro x _
  rw [Impact.affected?, Option.map_map]
  rfl

end

/-- The views of a graph agree if it is properly linked. -/
theorem viewsAgree (linked : g.Linked) : g.ViewsAgree := by
  constructor
  case context => exact fun n member => linked.context member
  case calls => exact fun a b ca cb knownA knownB => linked.listed_comm knownA knownB
  case once =>
    intro a c known
    rw [linked.callers_ids known, linked.callees_ids known]
    exact ⟨linked.entering_once .calls, linked.leaving_once .calls⟩
  case mostCalled => exact fun s member => linked.mostCalled_eq member
  case symbols => exact fun s member symbol c known => linked.symbol_depth1 member symbol known
  case files => exact fun f member file c known => linked.file_depth1 member file known

end Linked

end RepoGraph

/-! ### Assembled graphs -/

namespace Assembly

section

variable {files : List FileReading} (plain : ∀ f ∈ files, f.Plain)
  (owner name branch : String) (rule : CandidateRule)

include plain

/-- Calls and extensions lead to symbols. -/
theorem Drawn.target_symbol {e : Edge} (drawn : Drawn files rule e)
    (kind : e.kind = .calls ∨ e.kind = .extends) :
    ∃ n ∈ (Sources.ofFiles files).symbols, n.id = e.target := by
  cases drawn with
  | declaration => simp [Edge.make] at kind
  | imported => simp [Edge.make] at kind
  | supertype inFiles _ _ found => exact supertypeOf_symbol plain inFiles found
  | call inFiles _ found => exact callTargets_symbol plain rule inFiles found

omit plain in
/-- Imports lead to files. -/
theorem Drawn.target_file {e : Edge} (drawn : Drawn files rule e) (kind : e.kind = .imports) :
    ∃ f ∈ sortedFiles files, f.id = e.target := by
  cases drawn with
  | declaration => cases kind
  | imported _ resolved => exact exists_importedFile resolved
  | supertype _ _ reason =>
    obtain ⟨-, rfl⟩ | ⟨-, rfl⟩ := reason
    · cases kind
    · cases kind
  | call => cases kind

theorem build_linked : (build owner name branch files rule).Linked := by
  have drawn : ∀ e ∈ (build owner name branch files rule).edges, Drawn files rule e :=
    fun e member => drawn_of_mem plain member
  constructor
  case nodeIds => exact build_ids_nodup plain owner name branch rule
  case known => exact fun e member => drawn_ends plain owner name branch rule (drawn e member)
  case proper => exact distinctEdges_loopless _ _
  case single =>
    apply List.Nodup.map_on _ (edges_nodup rule)
    intro e member e' member' same
    obtain ⟨kinds, ends⟩ := Prod.mk.inj same
    obtain ⟨sources, targets⟩ := Prod.mk.inj ends
    exact edge_unique plain rule member member' kinds sources targets
  case toSymbols =>
    intro e member kind n inNodes same
    obtain ⟨m, symbol, target⟩ := (drawn e member).target_symbol plain rule kind
    rw [Sources.ofFiles_symbols plain] at symbol
    obtain ⟨f, inFiles, declared⟩ := List.mem_flatMap.mp symbol
    obtain ⟨m', inNodes', ids, isFile, -⟩ :=
      exists_symbolNode plain owner name branch rule inFiles declared
    rwa [node_unique plain owner name branch rule inNodes inNodes'
      (same.trans (target.symm.trans ids.symm))]
  case toFiles =>
    intro e member kind n inNodes same
    obtain ⟨f, inFiles, target⟩ := (drawn e member).target_file rule kind
    obtain ⟨m, inNodes', ids, isFile, -⟩ := exists_fileNode plain owner name branch rule inFiles
    rwa [node_unique plain owner name branch rule inNodes inNodes'
      (same.trans (target.symm.trans ids.symm))]

end

/-- The views of an assembled graph agree with each other. -/
theorem build_viewsAgree (owner name branch : String) {files : List FileReading}
    (rule : CandidateRule) (genuine : ∀ f ∈ files, f.Genuine) :
    (build owner name branch files rule).ViewsAgree :=
  (build_linked (fun f member => (genuine f member).plain) owner name branch rule).viewsAgree

/-- A file that calls a function which it imports from another one. -/
theorem build_viewsAgree_import :
    let files : List FileReading :=
      [⟨"a.py", .python, some (Source.parse "def f():\n  pass\n" "a.py")⟩,
        ⟨"b.py", .python, some (Source.parse "from a import f\nf()\n" "b.py")⟩]
    (∀ f ∈ files, f.Genuine) ∧
      (build "owner" "name" "main" files .firstMatch).ViewsAgree := by
  intro files
  have genuine : ∀ f ∈ files, f.Genuine := by
    intro f member
    rcases List.mem_pair.mp member with rfl | rfl
    · exact FileReading.genuine_parse _ (by decide)
    · exact FileReading.genuine_parse _ (by decide)
  exact ⟨genuine, build_viewsAgree "owner" "name" "main" .firstMatch genuine⟩

end Assembly

end CodeAtlas
