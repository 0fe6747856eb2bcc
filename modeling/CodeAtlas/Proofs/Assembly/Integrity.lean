import CodeAtlas.Proofs.Assembly.Edges
import CodeAtlas.Proofs.Double.Order
import Mathlib.Data.List.Dedup

/-!
# Integrity of assembled graphs

Whatever files a graph is assembled from, its ids tell its nodes and its edges apart, every edge
leads from one of its nodes to another one with a certainty and a weight between zero and one, every
path has one file node, and every symbol lies in the file that it names, and in no other.
-/

namespace CodeAtlas

/-- What holds of every assembled graph over files at the given paths. -/
structure RepoGraph.WellFormed (g : RepoGraph) (paths : List String) : Prop where
  nodeIds : (g.nodes.map Node.id).Nodup
  edgeIds : (g.edges.map Edge.id).Nodup
  ends : ∀ e ∈ g.edges,
    e.source ∈ g.nodes.map Node.id ∧ e.target ∈ g.nodes.map Node.id ∧ e.source ≠ e.target
  certainty : ∀ e ∈ g.edges, Double.InUnit e.confidence ∧ Double.InUnit e.weight
  /-- Every distinct path has one file node. -/
  fileNodes : ((g.nodes.filter Node.isFile).map Node.filePath).Perm paths.dedup
  /-- Of the edges that leave a symbol one says where it is defined: in its own file. -/
  home : ∀ n ∈ g.nodes, n.isFile = false → ∃ e,
    g.edges.filter (fun e => e.kind == .definedIn && e.source == n.id) = [e] ∧
      ∃ f ∈ g.nodes, f.isFile = true ∧ f.filePath = n.filePath ∧ e.target = f.id

namespace Assembly

/-! ### Certainties -/

theorem CallTier.confidence_number (tier : CallTier) : Double.Number tier.confidence := by
  cases tier with
  | imported | sameFile | single | first =>
    exact (Double.number_of_le (y := 1.0) (by decide)).1
  | oneOf count =>
    show Double.Number
      (if Scalar.less (0.05 : Float) (0.3 / Float.ofNat count) then 0.3 / Float.ofNat count else 0.05)
    split
    · next more => exact (Double.number_of_lt (of_decide_eq_true more)).2
    · exact (Double.number_of_le (y := 1.0) (by decide)).1

/-- An edge that is made with a number has a certainty and a weight between zero and one. -/
theorem make_inUnit {source target reason : String} {kind : EdgeKind} {confidence : Float}
    (number : Double.Number confidence) :
    Double.InUnit (Edge.make source target kind confidence reason).confidence ∧
      Double.InUnit (Edge.make source target kind confidence reason).weight := by
  have clamped := Double.clampUnit_inUnit number
  refine ⟨clamped, ?_⟩
  cases kind with
  | imports | definedIn =>
    simp only [Edge.make, Edge.weightOf]
    decide
  | calls | «extends» | implements => exact clamped

/-- A drawn edge has a certainty and a weight between zero and one. -/
theorem Drawn.inUnit {files : List FileReading} {rule : CandidateRule} {e : Edge}
    (drawn : Drawn files rule e) : Double.InUnit e.confidence ∧ Double.InUnit e.weight := by
  cases drawn with
  | declaration | imported | supertype =>
    exact make_inUnit (Double.number_of_le (y := 1.0) (by decide)).1
  | call => exact make_inUnit (CallTier.confidence_number _)

/-- A drawn edge has the id that belongs to its kind and its ends. -/
theorem Drawn.id_eq {files : List FileReading} {rule : CandidateRule} {e : Edge}
    (drawn : Drawn files rule e) : e.id = Edge.idOf e.kind e.source e.target := by
  cases drawn <;> rfl

/-- An edge that says where something is defined leads from a symbol to its file. -/
theorem Drawn.definition {files : List FileReading} {rule : CandidateRule} {e : Edge}
    (drawn : Drawn files rule e) (kind : e.kind = .definedIn) :
    ∃ f ∈ sortedFiles files, ∃ d ∈ f.declarations, e.source = (f.symbol d).id ∧ e.target = f.id := by
  cases drawn with
  | declaration inFiles declared =>
    obtain ⟨d, member, rfl⟩ := List.mem_map.mp declared
    exact ⟨_, inFiles, d, member, rfl, rfl⟩
  | imported => cases kind
  | supertype _ _ reason =>
    obtain ⟨-, rfl⟩ | ⟨-, rfl⟩ := reason
    · cases kind
    · cases kind
  | call => cases kind

end Assembly

/-! ### Nodes -/

theorem Communities.assign_map {β : Type} (field : Node → β)
    (kept : ∀ (n : Node) (c : Option String), field { n with communityId := c } = field n)
    (communities : List Community) (nodes : List Node) :
    (assign communities nodes).map field = nodes.map field := by
  rw [assign, List.map_map]
  apply List.map_congr_left
  intro n _
  simp only [Function.comp_apply]
  split
  · rfl
  · exact kept n _

namespace Assembly

/-- The caller on a line is the file or one of its functions. -/
theorem callerOf_mem (d : Declared) (line : Nat) :
    callerOf d line = d.file.id ∨ ∃ n ∈ d.symbols, callerOf d line = n.id := by
  have kept : ∀ (nodes : List Node) (best : Option Node) (n : Node),
      nodes.foldl laterStart best = some n → n ∈ nodes ∨ best = some n := by
    intro nodes
    induction nodes with
    | nil => simp
    | cons m rest ih =>
      intro best n found
      rcases ih _ n found with inRest | chosen
      · exact .inl (List.mem_cons_of_mem m inRest)
      · unfold laterStart at chosen
        split at chosen
        · exact .inl (List.mem_cons.mpr (.inl (Option.some.inj chosen).symm))
        · split at chosen
          · exact .inl (List.mem_cons.mpr (.inl (Option.some.inj chosen).symm))
          · exact .inr chosen
  unfold callerOf
  split
  · next n found =>
    rcases kept _ _ n found with member | impossible
    · exact .inr ⟨n, (List.mem_filter.mp member).1, rfl⟩
    · simp at impossible
  · exact .inl rfl

/-- What tells a node: its id, whether it is a file, and its path. -/
def face (n : Node) : String × Bool × String :=
  (n.id, n.isFile, n.filePath)

/-- The edges of a graph are those of its files. -/
theorem build_edges (owner name branch : String) (files : List FileReading)
    (rule : CandidateRule) :
    (build owner name branch files rule).edges = edges (Sources.ofFiles files) rule := rfl

section

variable {files : List FileReading} (plain : ∀ f ∈ files, f.Plain)
  (owner name branch : String) (rule : CandidateRule)

include plain

/-- The nodes of a graph are the files, then the symbols that they declare. -/
theorem build_faces :
    (build owner name branch files rule).nodes.map face =
      (sortedFiles files).map (fun f => face f.node) ++
        ((sortedFiles files).flatMap FileReading.symbols).map face := by
  unfold build
  rw [Communities.assign_map face (fun _ _ => rfl), Sources.ofFiles_files plain,
    Sources.ofFiles_symbols plain, List.map_append, List.map_map, List.map_map]
  rfl

theorem build_ids :
    (build owner name branch files rule).nodes.map Node.id =
      (sortedFiles files).map FileReading.id ++
        ((sortedFiles files).flatMap FileReading.symbols).map Node.id := by
  have faces := congrArg (List.map Prod.fst) (build_faces plain owner name branch rule)
  simpa [face, Function.comp_def, FileReading.node_id] using faces

theorem symbols_isFile {f : FileReading} (member : f ∈ sortedFiles files) {n : Node}
    (declared : n ∈ f.symbols) : n.isFile = false := by
  obtain ⟨d, inFile, rfl⟩ := List.mem_map.mp declared
  have symbol := ((plain f (sortedFiles_subset member)).declaration inFile).kind
  simpa [Node.isFile] using symbol

theorem build_ids_nodup :
    ((build owner name branch files rule).nodes.map Node.id).Nodup := by
  rw [build_ids plain, List.nodup_append]
  refine ⟨?_, Sources.symbols_nodup plain, ?_⟩
  · apply (List.Nodup.of_map _ (sortedFiles_nodup files)).map_on
    intro f inF g inG same
    exact sortedFiles_path_inj inF inG (Node.idOfFile_inj same)
  · intro file ofFile symbol ofSymbol same
    obtain ⟨g, -, rfl⟩ := List.mem_map.mp ofFile
    obtain ⟨n, member, rfl⟩ := List.mem_map.mp ofSymbol
    obtain ⟨f, inFiles, inSymbols⟩ := List.mem_flatMap.mp member
    obtain ⟨d, declared, rfl⟩ := List.mem_map.mp inSymbols
    have symbol := ((plain f (sortedFiles_subset inFiles)).declaration declared).kind
    exact Node.idOfSymbol_ne_idOfFile symbol f.path d.name g.path same.symm

/-- Nodes with the same id are the same. -/
theorem node_unique {n m : Node} (member : n ∈ (build owner name branch files rule).nodes)
    (member' : m ∈ (build owner name branch files rule).nodes) (ids : n.id = m.id) : n = m :=
  List.inj_on_of_nodup_map (build_ids_nodup plain owner name branch rule) member member' ids

/-- A file has its node. -/
theorem exists_fileNode {f : FileReading} (inFiles : f ∈ sortedFiles files) :
    ∃ n ∈ (build owner name branch files rule).nodes,
      n.id = f.id ∧ n.isFile = true ∧ n.filePath = f.path := by
  have known : face f.node ∈ (build owner name branch files rule).nodes.map face := by
    rw [build_faces plain]
    exact List.mem_append_left _ (List.mem_map_of_mem inFiles)
  obtain ⟨n, member, same⟩ := List.mem_map.mp known
  refine ⟨n, member, ?_⟩
  simpa [face, Node.isFile] using same

/-- A symbol of a file has its node. -/
theorem exists_symbolNode {f : FileReading} (inFiles : f ∈ sortedFiles files) {s : Node}
    (declared : s ∈ f.symbols) : ∃ n ∈ (build owner name branch files rule).nodes,
      n.id = s.id ∧ n.isFile = false ∧ n.filePath = f.path := by
  have known : face s ∈ (build owner name branch files rule).nodes.map face := by
    rw [build_faces plain]
    exact List.mem_append_right _
      (List.mem_map_of_mem (List.mem_flatMap.mpr ⟨f, inFiles, declared⟩))
  have symbol := symbols_isFile plain inFiles declared
  obtain ⟨n, member, same⟩ := List.mem_map.mp known
  obtain ⟨d, -, rfl⟩ := List.mem_map.mp declared
  refine ⟨n, member, ?_⟩
  simpa [face, symbol] using same

/-- A node that is no file is that of a symbol. -/
theorem exists_symbol {n : Node} (member : n ∈ (build owner name branch files rule).nodes)
    (symbol : n.isFile = false) :
    ∃ f ∈ sortedFiles files, ∃ d ∈ f.declarations,
      n.id = (f.symbol d).id ∧ n.filePath = f.path := by
  have known : face n ∈ (build owner name branch files rule).nodes.map face :=
    List.mem_map_of_mem member
  rw [build_faces plain, List.mem_append] at known
  rcases known with ofFile | ofSymbol
  · obtain ⟨f, -, same⟩ := List.mem_map.mp ofFile
    have isFile : n.isFile = true := (congrArg (fun x => x.2.1) same).symm
    rw [isFile] at symbol
    cases symbol
  · obtain ⟨s, inSymbols, same⟩ := List.mem_map.mp ofSymbol
    obtain ⟨f, inFiles, declared⟩ := List.mem_flatMap.mp inSymbols
    obtain ⟨d, inFile, rfl⟩ := List.mem_map.mp declared
    exact ⟨f, inFiles, d, inFile, (congrArg Prod.fst same).symm,
      (congrArg (fun x => x.2.2) same).symm⟩

/-- The file nodes of a graph stand for the files. -/
theorem build_fileNodes :
    ((build owner name branch files rule).nodes.filter Node.isFile).map Node.filePath =
      (sortedFiles files).map FileReading.path := by
  have faces := congrArg (fun l => (l.filter fun x => x.2.1).map fun x => x.2.2)
    (build_faces plain owner name branch rule)
  have noFiles : (((sortedFiles files).flatMap FileReading.symbols).map face).filter
      (fun x => x.2.1) = [] := by
    rw [List.filter_eq_nil_iff]
    intro x member
    obtain ⟨n, inSymbols, rfl⟩ := List.mem_map.mp member
    obtain ⟨f, inFiles, declared⟩ := List.mem_flatMap.mp inSymbols
    simp [face, symbols_isFile plain inFiles declared]
  have allFiles : ((sortedFiles files).map fun f => face f.node).filter (fun x => x.2.1) =
      (sortedFiles files).map fun f => face f.node := by
    rw [List.filter_eq_self]
    intro x member
    obtain ⟨f, -, rfl⟩ := List.mem_map.mp member
    rfl
  simp only [List.filter_append, noFiles, allFiles, List.append_nil, List.map_map,
    List.filter_map] at faces
  exact faces

/-! ### Ends of edges -/

/-- The id of a file is that of a node. -/
theorem id_mem_of_file {f : FileReading} (member : f ∈ sortedFiles files) :
    f.id ∈ (build owner name branch files rule).nodes.map Node.id := by
  rw [build_ids plain]
  exact List.mem_append_left _ (List.mem_map_of_mem member)

theorem id_mem_of_symbols {n : Node} (member : n ∈ (Sources.ofFiles files).symbols) :
    n.id ∈ (build owner name branch files rule).nodes.map Node.id := by
  rw [Sources.ofFiles_symbols plain] at member
  rw [build_ids plain]
  exact List.mem_append_right _ (List.mem_map_of_mem member)

omit owner name branch rule in
/-- What a file declares is a symbol. -/
theorem mem_symbols {f : FileReading} (member : f ∈ sortedFiles files) {n : Node}
    (declared : n ∈ f.symbols) : n ∈ (Sources.ofFiles files).symbols := by
  rw [Sources.ofFiles_symbols plain]
  exact List.mem_flatMap.mpr ⟨f, member, declared⟩

omit owner name branch rule in
theorem mem_symbols_of_symbolsOf {path : String} {n : Node}
    (member : n ∈ (Sources.ofFiles files).symbolsOf path) :
    n ∈ (Sources.ofFiles files).symbols := by
  by_cases present : path ∈ files.map FileReading.path
  · rw [← sortedFiles_paths] at present
    obtain ⟨g, inFiles, rfl⟩ := List.mem_map.mp present
    rw [Sources.symbolsOf_path plain inFiles] at member
    exact mem_symbols plain inFiles member
  · rw [Sources.symbolsOf_eq_nil plain present] at member
    simp at member

omit owner name branch rule in
/-- What the name of a supertype means is a symbol. -/
theorem supertypeOf_symbol {f : FileReading} (inFiles : f ∈ sortedFiles files)
    {resolved : List (Import × String)} {name target : String}
    (found : supertypeOf? (Sources.ofFiles files) ⟨f, f.symbols⟩ resolved name = some target) :
    ∃ n ∈ (Sources.ofFiles files).symbols, n.id = target := by
  unfold supertypeOf? at found
  split at found
  · next own =>
    obtain ⟨n, member, same, -⟩ := supertype_mem (own.trans found)
    exact ⟨n, mem_symbols plain inFiles member, same⟩
  · split at found
    · next imported =>
      obtain ⟨path, -, inFile⟩ := Option.bind_eq_some_iff.mp (imported.trans found)
      obtain ⟨n, member, same, -⟩ := supertype_mem inFile
      exact ⟨n, mem_symbols_of_symbolsOf plain member, same⟩
    · obtain ⟨n, member, same, -⟩ := mem_sortedIds.mp (List.mem_of_mem_head? found)
      exact ⟨n, member, same⟩

omit owner name branch in
/-- What a called name means is a symbol. -/
theorem callTargets_symbol {f : FileReading} (inFiles : f ∈ sortedFiles files)
    {resolved : List (Import × String)} {callee target : String} {tier : CallTier}
    (found : (target, tier) ∈ callTargets (Sources.ofFiles files) rule ⟨f, f.symbols⟩ resolved
      callee) : ∃ n ∈ (Sources.ofFiles files).symbols, n.id = target := by
  unfold callTargets at found
  split at found
  · next imported =>
    obtain ⟨rfl, -⟩ := Prod.mk.inj (List.mem_singleton.mp found)
    obtain ⟨path, -, inFile⟩ := Option.bind_eq_some_iff.mp imported
    obtain ⟨n, member, same, -⟩ := callable_mem inFile
    exact ⟨n, mem_symbols_of_symbolsOf plain member, same⟩
  · split at found
    · next own =>
      obtain ⟨rfl, -⟩ := Prod.mk.inj (List.mem_singleton.mp found)
      obtain ⟨n, member, same, -⟩ := callable_mem own
      exact ⟨n, mem_symbols plain inFiles member, same⟩
    · obtain ⟨n, member, same, -⟩ := mem_sortedIds.mp (globalTargets_mem found)
      exact ⟨n, member, same⟩

omit plain owner name branch rule in
/-- The file that an import means is among the files. -/
theorem exists_importedFile {f : FileReading} {i : Import} {target : String}
    (resolved : (i, target) ∈ resolvedImports (Sources.ofFiles files) f) :
    ∃ g ∈ sortedFiles files, g.id = Node.idOfFile target := by
  have present := Source.present_of_importedFile (mem_resolvedImports.mp resolved).2.2
  rw [Sources.contains_paths, ← sortedFiles_paths] at present
  obtain ⟨g, inFiles, rfl⟩ := List.mem_map.mp present
  exact ⟨g, inFiles, rfl⟩

theorem drawn_ends {e : Edge} (drawn : Drawn files rule e) :
    e.source ∈ (build owner name branch files rule).nodes.map Node.id ∧
      e.target ∈ (build owner name branch files rule).nodes.map Node.id := by
  have ofFile : ∀ f ∈ sortedFiles files,
      f.id ∈ (build owner name branch files rule).nodes.map Node.id :=
    fun f inFiles => id_mem_of_file plain owner name branch rule inFiles
  have ofSymbol : ∀ n ∈ (Sources.ofFiles files).symbols,
      n.id ∈ (build owner name branch files rule).nodes.map Node.id :=
    fun n member => id_mem_of_symbols plain owner name branch rule member
  cases drawn with
  | declaration inFiles declared =>
    exact ⟨ofSymbol _ (mem_symbols plain inFiles declared), ofFile _ inFiles⟩
  | imported inFiles resolved =>
    obtain ⟨g, inFiles', same⟩ := exists_importedFile resolved
    exact ⟨ofFile _ inFiles, same ▸ ofFile g inFiles'⟩
  | supertype inFiles declared _ found _ =>
    obtain ⟨n, member, rfl⟩ := supertypeOf_symbol plain inFiles found
    exact ⟨ofSymbol _ (mem_symbols plain inFiles (List.mem_map_of_mem declared)),
      ofSymbol n member⟩
  | @call f c target tier inFiles called found =>
    obtain ⟨n, member, rfl⟩ := callTargets_symbol plain rule inFiles found
    refine ⟨?_, ofSymbol n member⟩
    show callerOf ⟨f, f.symbols⟩ c.line ∈ _
    rcases callerOf_mem ⟨f, f.symbols⟩ c.line with same | ⟨m, declared, same⟩
    · exact same ▸ ofFile f inFiles
    · exact same ▸ ofSymbol m (mem_symbols plain inFiles declared)

/-! ### The file of a symbol -/

theorem exists_definition {f : FileReading} (inFiles : f ∈ sortedFiles files) {d : Declaration}
    (declared : d ∈ f.declarations) : ∃ e ∈ edges (Sources.ofFiles files) rule,
      e.kind = .definedIn ∧ e.source = (f.symbol d).id ∧ e.target = f.id := by
  have plainHere := (plain f (sortedFiles_subset inFiles)).declaration declared
  have drawn : Drawn files rule (Edge.make (f.symbol d).id f.id .definedIn
      declarationConfidence "declaration") :=
    .declaration inFiles (List.mem_map_of_mem declared)
  obtain ⟨e, kept, same⟩ := exists_mem_of_drawn plain drawn
    (Node.idOfSymbol_ne_idOfFile plainHere.kind f.path d.name f.path)
  have drawn' := drawn_of_mem plain kept
  rw [drawn'.id_eq] at same
  have kind : e.kind = .definedIn := (Edge.idOf_cut same).1
  obtain ⟨g, inFiles', d', declared', source, target⟩ := drawn'.definition kind
  -- the edge that is kept under this id could be one of another symbol
  have names := (plain g (sortedFiles_subset inFiles')).declaration declared'
  rw [kind, source, target] at same
  obtain ⟨kinds, paths, labels⟩ := Edge.idOf_definedIn_inj names.name plainHere.name same
  refine ⟨e, kept, kind, ?_, ?_⟩
  · rw [source, FileReading.symbol_id, FileReading.symbol_id, kinds, paths, labels]
  · rw [target, FileReading.id, FileReading.id, paths]

omit plain in
theorem edges_nodup : (edges (Sources.ofFiles files) rule).Nodup :=
  List.Nodup.of_map _ (distinctEdges_ids _ _).1

/-- Edges of one kind with the same ends are the same. -/
theorem edge_unique {e e' : Edge} (member : e ∈ edges (Sources.ofFiles files) rule)
    (member' : e' ∈ edges (Sources.ofFiles files) rule) (kinds : e.kind = e'.kind)
    (sources : e.source = e'.source) (targets : e.target = e'.target) : e = e' := by
  have ids : e.id = e'.id := by
    rw [(drawn_of_mem plain member).id_eq, (drawn_of_mem plain member').id_eq, kinds, sources,
      targets]
  exact List.inj_on_of_nodup_map (distinctEdges_ids _ _).1 member member' ids

/-- Two edges that say where one symbol is defined are the same. -/
theorem definition_unique {e e' : Edge} (member : e ∈ edges (Sources.ofFiles files) rule)
    (member' : e' ∈ edges (Sources.ofFiles files) rule) (kind : e.kind = .definedIn)
    (kind' : e'.kind = .definedIn) (same : e.source = e'.source) : e = e' := by
  obtain ⟨f, inF, d, declared, source, target⟩ := (drawn_of_mem plain member).definition kind
  obtain ⟨g, inG, d', declared', source', target'⟩ :=
    (drawn_of_mem plain member').definition kind'
  have paths : f.path = g.path :=
    (FileReading.symbol_id_inj (plain f (sortedFiles_subset inF)) (plain g (sortedFiles_subset inG))
      declared declared' (by rw [← source, ← source', same])).1
  apply edge_unique plain rule member member' (kind.trans kind'.symm) same
  rw [target, target', FileReading.id, FileReading.id, paths]

/-- Of the edges that leave a symbol one leads to its file. -/
theorem build_home {n : Node} (member : n ∈ (build owner name branch files rule).nodes)
    (symbol : n.isFile = false) :
    ∃ e, (build owner name branch files rule).edges.filter
        (fun e => e.kind == .definedIn && e.source == n.id) = [e] ∧
      ∃ f ∈ (build owner name branch files rule).nodes,
        f.isFile = true ∧ f.filePath = n.filePath ∧ e.target = f.id := by
  obtain ⟨f, inFiles, d, declared, ids, paths⟩ :=
    exists_symbol plain owner name branch rule member symbol
  obtain ⟨e, kept, kind, source, target⟩ :=
    exists_definition plain rule inFiles declared
  obtain ⟨m, inNodes, fileId, isFile, filePath⟩ :=
    exists_fileNode plain owner name branch rule inFiles
  refine ⟨e, ?_, m, inNodes, isFile, by rw [filePath, paths], by rw [target, fileId]⟩
  apply List.perm_singleton.mp
  rw [build_edges, List.perm_ext_iff_of_nodup ((edges_nodup rule).filter _)
    (List.nodup_singleton e)]
  intro e'
  simp only [List.mem_filter, Bool.and_eq_true, beq_iff_eq, List.mem_singleton]
  constructor
  · rintro ⟨member', kind', source'⟩
    exact definition_unique plain rule member' kept kind' kind (by rw [source', source, ids])
  · rintro rfl
    exact ⟨kept, kind, by rw [source, ids]⟩

end

/-- Graphs that are assembled from files that were read, or could not be, are well-formed. -/
theorem build_wellFormed (owner name branch : String) {files : List FileReading}
    (rule : CandidateRule) (genuine : ∀ f ∈ files, f.Genuine) :
    (build owner name branch files rule).WellFormed (files.map FileReading.path) := by
  have plain : ∀ f ∈ files, f.Plain := fun f member => (genuine f member).plain
  have drawn : ∀ e ∈ (build owner name branch files rule).edges, Drawn files rule e :=
    fun e member => drawn_of_mem plain member
  constructor
  case nodeIds => exact build_ids_nodup plain owner name branch rule
  case edgeIds => exact (distinctEdges_ids _ _).1
  case ends =>
    intro e member
    obtain ⟨source, target⟩ := drawn_ends plain owner name branch rule (drawn e member)
    exact ⟨source, target, distinctEdges_loopless _ _ e member⟩
  case certainty =>
    intro e member
    exact (drawn e member).inUnit
  case fileNodes =>
    rw [build_fileNodes plain, List.perm_ext_iff_of_nodup (sortedFiles_nodup files) (List.nodup_dedup _)]
    intro path
    rw [sortedFiles_paths, List.mem_dedup]
  case home =>
    intro n member symbol
    exact build_home plain owner name branch rule member symbol

/-- A path in which ids could be mistaken, given twice, once without its text. -/
theorem build_wellFormed_twice :
    let read : FileReading :=
      ⟨"a->b::c.py", .python, some (Source.parse "def f():\n  g()\n" "a->b::c.py")⟩
    let unread : FileReading := ⟨"a->b::c.py", .python, none⟩
    (∀ f ∈ [read, unread], f.Genuine) ∧
      (build "owner" "name" "main" [read, unread] .splitAll).WellFormed
        ["a->b::c.py", "a->b::c.py"] := by
  intro read unread
  have genuine : ∀ f ∈ [read, unread], f.Genuine := by
    intro f member
    have known : Language.ofPath? "a->b::c.py" = some .python := by decide
    rcases List.mem_pair.mp member with rfl | rfl
    · exact .inl ⟨"def f():\n  g()\n", by rw [FileReading.ofSource?, known]; rfl⟩
    · exact .inr rfl
  exact ⟨genuine, build_wellFormed "owner" "name" "main" .splitAll genuine⟩

end Assembly

end CodeAtlas
