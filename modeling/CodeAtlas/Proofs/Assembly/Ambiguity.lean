import CodeAtlas.Proofs.Assembly.Calls
import CodeAtlas.Proofs.Clustering.Weights
import CodeAtlas.Proofs.Flow.Certain

/-!
# Ambiguous names

A rule for names with several candidates decides which uncertain calls are drawn, and nothing else.
Communities and paths are found by certain edges. Where a symbol makes an uncertain call under one
rule it makes one under the other, since a file that does not know a name does not declare the caller
under it; so the same symbols are entry points.
-/

namespace CodeAtlas

/-- What two graphs share that differ in uncertain calls only. -/
structure RepoGraph.AgreesWith (g h : RepoGraph) : Prop where
  nodes : g.nodes = h.nodes
  communities : g.communities = h.communities
  certain : g.edges.filter (fun e => decide (0.5 ≤ e.confidence)) =
    h.edges.filter fun e => decide (0.5 ≤ e.confidence)
  others : g.edges.filter (·.kind != .calls) = h.edges.filter (·.kind != .calls)
  entryPoints : g.entryPoints = h.entryPoints
  flows : g.entryPoints.length ≤ 30 → g.flows = h.flows

namespace Assembly

open FlowTrace

/-- An edge that no rule for ambiguous names decides: a certain one, or one that is no call. -/
def isSettled (e : Edge) : Bool :=
  e.kind != .calls || isCertain e

/-- A weaker test that keeps the same of two lists shows that a stronger one does. -/
theorem filter_eq_of_imp {α : Type} {weak strong : α → Bool} {items items' : List α}
    (imp : ∀ x, strong x = true → weak x = true) (same : items.filter weak = items'.filter weak) :
    items.filter strong = items'.filter strong := by
  have twice : ∀ items : List α, items.filter strong = (items.filter weak).filter strong := by
    intro items
    rw [List.filter_filter]
    apply List.filter_congr
    intro x _
    by_cases holds : strong x = true
    · simp [holds, imp x holds]
    · simp [holds]
  rw [twice, twice items', same]

/-! ### Guesses are uncertain -/

theorem oneOf_uncertain {n : Nat} (positive : 0 < n) :
    Edge.clampUnit (CallTier.oneOf n).confidence < 0.5 := by
  obtain ⟨p, q, whole, part, less, -⟩ := part_denotes positive
  have small : p < 1 / 2 := (whole.lt_iff Double.half_denotes).mp (by decide)
  have notNone : CallTier.oneOf n ≠ .oneOf 0 := by
    intro none
    rw [CallTier.oneOf.inj none] at positive
    exact lt_irrefl 0 positive
  rw [Double.clampUnit_eq (CallTier.confidence_inUnit notNone), oneOf_confidence positive]
  show (if 0.3 / Float.ofNat n ≤ 0.05 then (0.05 : Float) else 0.3 / Float.ofNat n) < 0.5
  split
  · decide
  · exact (part.lt_iff Double.half_denotes).mpr (less.trans_lt small)

/-- Where there are several candidates, what a name means is uncertain under every rule. -/
theorem globalTargets_uncertain (rule : CandidateRule) (id next : String) (more : List String) :
    ∀ x ∈ globalTargets rule (id :: next :: more), Edge.clampUnit x.2.confidence < 0.5 := by
  intro x member
  cases rule with
  | firstMatch =>
    rw [List.mem_singleton.mp member]
    show Edge.clampUnit CallTier.first.confidence < 0.5
    decide
  | splitAll =>
    obtain ⟨other, -, rfl⟩ := List.mem_map.mp member
    exact oneOf_uncertain (Nat.succ_pos _)

/-- No call of one of several candidates is settled. -/
theorem not_isSettled_guess (rule : CandidateRule) (caller id next : String) (more : List String) :
    ∀ x ∈ globalTargets rule (id :: next :: more),
      ¬ isSettled (Edge.make caller x.1 .calls x.2.confidence x.2.reason) = true := by
  intro x member
  have uncertain : decide (Edge.clampUnit x.2.confidence < 0.5) = true :=
    decide_eq_true (globalTargets_uncertain rule id next more x member)
  show ¬ (!decide (Edge.clampUnit x.2.confidence < 0.5)) = true
  simp [uncertain]

/-- Whether a name means anything does not depend on the rule. -/
theorem globalTargets_eq_nil_iff (rule : CandidateRule) (ids : List String) :
    globalTargets rule ids = [] ↔ ids = [] := by
  cases ids with
  | nil => simp [globalTargets]
  | cons id others =>
    cases others with
    | nil => simp [globalTargets]
    | cons next more => cases rule <;> simp [globalTargets]

variable (rule rule' : CandidateRule)

/-! ### Settled edges -/

/-- The rule matters only where there are several candidates, and there no call is settled. -/
theorem callEdges_settled (s : Sources) (d : Declared) (resolved : List (Import × String)) :
    (callEdges s rule d resolved).filter isSettled =
      (callEdges s rule' d resolved).filter isSettled := by
  unfold callEdges
  rw [List.filter_flatMap, List.filter_flatMap]
  apply List.flatMap_congr
  intro call _
  unfold callTargets
  split
  · rfl
  · split
    · rfl
    · cases Names.callableIds s.symbols call.callee with
      | nil => rfl
      | cons id others =>
        cases others with
        | nil => rfl
        | cons next more =>
          have none : ∀ rule, ((globalTargets rule (id :: next :: more)).map fun x =>
              Edge.make (callerOf d call.line) x.1 .calls x.2.confidence x.2.reason).filter
                isSettled = [] := by
            intro rule
            rw [List.filter_eq_nil_iff]
            intro e drawn
            obtain ⟨x, member, rfl⟩ := List.mem_map.mp drawn
            exact not_isSettled_guess rule (callerOf d call.line) id next more x member
          exact (none rule).trans (none rule').symm

variable {files : List FileReading}

theorem drawnEdges_settled : (drawnEdges files rule).filter isSettled =
    (drawnEdges files rule').filter isSettled := by
  unfold drawnEdges edgesOfFile
  simp only [List.filter_append, List.filter_flatMap, callEdges_settled rule rule']

section

variable (plain : ∀ f ∈ files, f.Plain) (distinct : (files.map FileReading.path).Nodup)
  {rule rule' : CandidateRule}

include plain distinct

/-- Of drawn edges with one id all are settled or none. -/
theorem Drawn.settled_eq (free : ∀ f ∈ files, Arrowless f.path.toList) {e e' : Edge}
    (drawn : Drawn files rule e) (drawn' : Drawn files rule e') (same : e.id = e'.id) :
    isSettled e = isSettled e' := by
  obtain ⟨kinds, sources, targets⟩ := drawn.ends_eq plain free drawn' same
  by_cases call : e.kind = .calls
  · obtain ⟨tier, calls, certainty, -⟩ := callsOf_of_drawn plain distinct drawn call
    obtain ⟨tier', calls', certainty', -⟩ :=
      callsOf_of_drawn plain distinct drawn' (kinds.symm.trans call)
    rw [← sources, ← targets] at calls'
    obtain rfl := callsOf_tier plain distinct calls calls'
    rw [isSettled, isSettled, isCertain, isCertain, kinds, certainty, certainty']
  · have settled : (e'.kind != .calls) = true := bne_iff_ne.mpr fun kind => call (kinds.trans kind)
    rw [isSettled, isSettled, kinds, settled, Bool.true_or, Bool.true_or]

/-- The settled edges are the same under every rule. -/
theorem edges_settled (free : ∀ f ∈ files, Arrowless f.path.toList) (rule rule' : CandidateRule) :
    (edges (Sources.ofFiles files) rule).filter isSettled =
      (edges (Sources.ofFiles files) rule').filter isSettled := by
  have settled : ∀ rule, (edges (Sources.ofFiles files) rule).filter isSettled =
      distinctEdges {} ((drawnEdges files rule).filter isSettled) := by
    intro rule
    apply filter_distinctEdges
    · intro e member e' member' same
      exact Drawn.settled_eq plain distinct free ((mem_drawnEdges plain).mp member)
        ((mem_drawnEdges plain).mp member') same
    · simp
  rw [settled, settled, drawnEdges_settled rule rule']

/-! ### Who calls something -/

/-- A caller is not what is meant by a name that is unknown in its file. -/
theorem callerOf_ne {f : FileReading} (inFiles : f ∈ files) {line : Nat} {callee target : String}
    {tier : CallTier} (unknown : f.Unknown files callee)
    (means : (target, tier) ∈ callTargets (Sources.ofFiles files) rule ⟨f, f.symbols⟩
      (resolvedImports (Sources.ofFiles files) f) callee) :
    callerOf ⟨f, f.symbols⟩ line ≠ target := by
  intro same
  obtain ⟨g, inG, d, declared, target_eq, name⟩ := target_named plain distinct inFiles means
  cases callerOf_iff.mp same with
  | file =>
    have symbol := ((plain g inG).declaration declared).kind
    exact Node.idOfSymbol_ne_idOfFile symbol g.path d.name f.path target_eq.symm
  | @function before after n split =>
    have inAround : n ∈ f.around line := by simp [split]
    obtain ⟨inSymbols, isFunction⟩ := List.mem_filter.mp inAround
    obtain ⟨d', declared', rfl⟩ := List.mem_map.mp inSymbols
    have keys := (FileReading.symbol_id_inj (plain f inFiles) (plain g inG) declared' declared
      target_eq).2
    have named : d'.name = callee := (congrArg Prod.snd keys).trans name
    have declares : f.Declares .function callee := by
      refine ⟨d', declared', ?_, named⟩
      simp only [Bool.and_eq_true, beq_iff_eq] at isFunction
      exact isFunction.1
    exact unknown.2 _ (.function declares)

/-- Who calls something under one rule calls something under every rule. -/
theorem CallsOf.other {caller target : String} {tier : CallTier}
    (calls : CallsOf files rule caller target tier) (proper : caller ≠ target)
    (rule' : CandidateRule) :
    ∃ target' tier', CallsOf files rule' caller target' tier' ∧ caller ≠ target' := by
  obtain ⟨f, inFiles, c, called, rfl, means⟩ := calls
  rcases (mem_callTargets plain distinct).mp means with ⟨imports, same⟩ | ⟨unbound, callable, same⟩ |
    ⟨unknown, global⟩
  · exact ⟨target, tier, ⟨f, inFiles, c, called, rfl,
      (mem_callTargets plain distinct).mpr (.inl ⟨imports, same⟩)⟩, proper⟩
  · exact ⟨target, tier, ⟨f, inFiles, c, called, rfl,
      (mem_callTargets plain distinct).mpr (.inr (.inl ⟨unbound, callable, same⟩))⟩, proper⟩
  · have candidates := List.ne_nil_of_mem (globalTargets_mem global)
    have some := mt (globalTargets_eq_nil_iff rule' _).mp candidates
    obtain ⟨⟨target', tier'⟩, global'⟩ := List.exists_mem_of_ne_nil _ some
    have means' := (mem_callTargets plain distinct).mpr (.inr (.inr ⟨unknown, global'⟩))
    exact ⟨target', tier', ⟨f, inFiles, c, called, rfl, means'⟩,
      callerOf_ne plain distinct inFiles unknown means'⟩

/-- What calls something under one rule calls something under every rule. -/
theorem calling_of_calling (free : ∀ f ∈ files, Arrowless f.path.toList) {nodes : List Node}
    (known : ∀ e, Drawn files rule' e → e.target ∈ nodes.map Node.id) {i : Nat}
    (calling : (Adjacency.ofParts nodes (edges (Sources.ofFiles files) rule)).outgoing i [.calls] ≠
      []) :
    (Adjacency.ofParts nodes (edges (Sources.ofFiles files) rule')).outgoing i [.calls] ≠ [] := by
  obtain ⟨⟨j, e⟩, leaving⟩ := List.exists_mem_of_ne_nil _ calling
  obtain ⟨listed, kind, source, -⟩ := Adjacency.mem_outgoing.mp leaving
  obtain ⟨tier, calls, -⟩ := callsOf_of_drawn plain distinct (drawn_of_mem plain listed)
    (List.mem_singleton.mp kind)
  obtain ⟨target, tier', calls', proper⟩ :=
    calls.other plain distinct (distinctEdges_loopless _ _ e listed) rule'
  obtain ⟨e', listed', kind', source', rfl⟩ := exists_call_edge plain distinct free calls' proper
  obtain ⟨j', target'⟩ :=
    Adjacency.exists_position?_iff.mpr (known e' (drawn_of_mem plain listed'))
  have leaving' : (j', e') ∈ (Adjacency.ofParts nodes
      (edges (Sources.ofFiles files) rule')).outgoing i [.calls] := by
    rw [Adjacency.mem_outgoing]
    refine ⟨listed', List.mem_singleton.mpr kind', ?_, target'⟩
    rw [source']
    exact source
  exact List.ne_nil_of_mem leaving'

end

/-! ### Graphs under the two rules -/

/-- The nodes of some files, before they have communities. -/
def unassignedNodes (files : List FileReading) : List Node :=
  (Sources.ofFiles files).files.map (·.file.node) ++ (Sources.ofFiles files).symbols

section

variable (owner name branch : String)

theorem build_nodes_map (files : List FileReading) {β : Type} (key : Node → β)
    (kept : ∀ (n : Node) (c : Option String), key { n with communityId := c } = key n) :
    (build owner name branch files rule).nodes.map key = (unassignedNodes files).map key :=
  Communities.assign_map key kept _ _

variable (plain : ∀ f ∈ files, f.Plain) (distinct : (files.map FileReading.path).Nodup)
  (free : ∀ f ∈ files, Arrowless f.path.toList)

include plain distinct free

/-- The same nodes call something under all rules. -/
theorem calling_iff {nodes : List Node}
    (ids : nodes.map Node.id = (unassignedNodes files).map Node.id) (i : Nat) :
    (Adjacency.ofParts nodes (edges (Sources.ofFiles files) rule)).outgoing i [.calls] = [] ↔
      (Adjacency.ofParts nodes (edges (Sources.ofFiles files) rule')).outgoing i [.calls] = [] := by
  have known : ∀ rule e, Drawn files rule e → e.target ∈ nodes.map Node.id := by
    intro rule e drawn
    rw [ids, ← build_nodes_map rule "" "" "" files Node.id fun _ _ => rfl]
    exact (drawn_ends plain "" "" "" rule drawn).2
  constructor
  · intro none
    by_contra some
    exact calling_of_calling plain distinct free (known rule) some none
  · intro none
    by_contra some
    exact calling_of_calling plain distinct free (known rule') some none

theorem build_communities_eq : (build owner name branch files rule).communities =
    (build owner name branch files rule').communities := by
  apply Communities.ofParts_congr
  apply filter_eq_of_imp _ (edges_settled plain distinct free rule rule')
  intro e joins
  simp only [Communities.joins, Bool.and_eq_true] at joins
  rw [isSettled, Bool.or_eq_true]
  exact .inr joins.2

theorem build_nodes_eq : (build owner name branch files rule).nodes =
    (build owner name branch files rule').nodes := by
  show Communities.assign (build owner name branch files rule).communities (unassignedNodes files) =
    Communities.assign (build owner name branch files rule').communities (unassignedNodes files)
  rw [build_communities_eq rule rule' owner name branch plain distinct free]

theorem build_entryPoints_eq : (build owner name branch files rule).entryPoints =
    (build owner name branch files rule').entryPoints := by
  have nodes := build_nodes_eq rule rule' owner name branch plain distinct free
  have calling := calling_iff rule rule' plain distinct free
    (build_nodes_map rule owner name branch files Node.id fun _ _ => rfl)
  have entries : EntryPoint.entries (Adjacency.ofParts (build owner name branch files rule).nodes
      (edges (Sources.ofFiles files) rule)) =
        EntryPoint.entries (Adjacency.ofParts (build owner name branch files rule).nodes
          (edges (Sources.ofFiles files) rule')) := EntryPoint.entries_congr rfl calling
  unfold RepoGraph.entryPoints Adjacency.ofGraph
  rw [← nodes, build_edges, build_edges, entries]

theorem build_flows_eq
    (few : (build owner name branch files rule).entryPoints.length ≤ EntryPoint.mostEntries) :
    (build owner name branch files rule).flows = (build owner name branch files rule').flows := by
  have certain : (edges (Sources.ofFiles files) rule).filter isCertain =
      (edges (Sources.ofFiles files) rule').filter isCertain := by
    apply filter_eq_of_imp _ (edges_settled plain distinct free rule rule')
    intro e certain
    rw [isSettled, certain, Bool.or_true]
  have counted := EntryPoint.length_entries_congr
    (build_nodes_map rule owner name branch files (fun n => (n.id, n.kind, n.label)) fun _ _ => rfl)
    (edges (Sources.ofFiles files) rule)
  rw [RepoGraph.entryPoints, List.length_map, Adjacency.ofGraph, build_edges, counted] at few
  show Flows.ofParts (unassignedNodes files) (edges (Sources.ofFiles files) rule)
      (build owner name branch files rule).communities =
    Flows.ofParts (unassignedNodes files) (edges (Sources.ofFiles files) rule')
      (build owner name branch files rule').communities
  rw [build_communities_eq rule rule' owner name branch plain distinct free]
  exact Flows.ofParts_congr certain (calling_iff rule rule' plain distinct free rfl) few

end

/-- The rule for ambiguous names decides which uncertain calls a graph has, and nothing else: under
both rules it has the same nodes, communities, certain edges and edges that are no calls, and the same
flows if it has few entry points. -/
theorem build_agrees (owner name branch : String) {files : List FileReading}
    (genuine : ∀ f ∈ files, f.Genuine) (distinct : (files.map FileReading.path).Nodup)
    (free : ∀ f ∈ files, Arrowless f.path.toList) :
    (build owner name branch files .firstMatch).AgreesWith
      (build owner name branch files .splitAll) := by
  have plain : ∀ f ∈ files, f.Plain := fun f member => (genuine f member).plain
  have settled := edges_settled plain distinct free .firstMatch .splitAll
  constructor
  case nodes => exact build_nodes_eq _ _ owner name branch plain distinct free
  case communities => exact build_communities_eq _ _ owner name branch plain distinct free
  case certain =>
    apply filter_eq_of_imp _ settled
    intro e atLeast
    have known := of_decide_eq_true atLeast
    obtain ⟨half, number⟩ := Double.number_of_le known
    have certain : isCertain e = true := by
      rw [isCertain, Bool.not_eq_true', decide_eq_false_iff_not]
      exact (Double.not_lt_iff number half).mpr known
    rw [isSettled, certain, Bool.or_true]
  case others =>
    apply filter_eq_of_imp _ settled
    intro e noCall
    rw [isSettled, noCall, Bool.true_or]
  case entryPoints => exact build_entryPoints_eq _ _ owner name branch plain distinct free
  case flows => exact build_flows_eq _ _ owner name branch plain distinct free

/-- A function that calls one of two functions of the same name, in two other files. -/
theorem build_agrees_twoCandidates :
    let f : FileReading :=
      ⟨"a.py", .python, some (Source.parse "def main():\n    load()\n" "a.py")⟩
    let g : FileReading :=
      ⟨"b.py", .python, some (Source.parse "def load():\n    pass\n" "b.py")⟩
    let h : FileReading :=
      ⟨"c.py", .python, some (Source.parse "def load():\n    pass\n" "c.py")⟩
    let first := build "owner" "name" "main" [f, g, h] .firstMatch
    let split := build "owner" "name" "main" [f, g, h] .splitAll
    (∀ x ∈ [f, g, h], x.Genuine) ∧ ([f, g, h].map FileReading.path).Nodup ∧
      (∀ x ∈ [f, g, h], Arrowless x.path.toList) ∧ first.AgreesWith split ∧
      first.entryPoints.length ≤ 30 ∧ first.flows = split.flows := by
  intro f g h first split
  have genuine : ∀ x ∈ [f, g, h], x.Genuine := by
    intro x member
    simp only [List.mem_cons, List.not_mem_nil, or_false] at member
    rcases member with rfl | rfl | rfl
    · exact FileReading.genuine_parse _ (by decide)
    · exact FileReading.genuine_parse _ (by decide)
    · exact FileReading.genuine_parse _ (by decide)
  have plain : ∀ x ∈ [f, g, h], x.Plain := fun x member => (genuine x member).plain
  have distinct : ([f, g, h].map FileReading.path).Nodup := by decide
  have free : ∀ x ∈ [f, g, h], Arrowless x.path.toList := by
    unfold Arrowless
    decide
  have agrees := build_agrees "owner" "name" "main" genuine distinct free
  have few : first.entryPoints.length ≤ 30 := by
    have sorted : sortedFiles [f, g, h] = [f, g, h] := sortedFiles_of_strict (by decide)
    have symbols : ([f, g, h].flatMap FileReading.symbols).length = 3 := by decide +kernel
    have nodes := congrArg List.length (build_ids plain "owner" "name" "main" .firstMatch)
    rw [sorted, List.length_append, List.length_map, List.length_map, List.length_map,
      symbols] at nodes
    exact first.length_entryPoints_le.trans (nodes.trans_le (by decide))
  exact ⟨genuine, distinct, free, agrees, few, agrees.flows few⟩

end Assembly

end CodeAtlas
