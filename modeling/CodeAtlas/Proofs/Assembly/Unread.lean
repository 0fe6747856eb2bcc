import CodeAtlas.Proofs.Assembly.Calls

/-!
# Files whose texts are lost

If the texts of some files cannot be had, the graph keeps the nodes of those files and loses their
symbols. Of the edges that say where something is defined or what is imported it loses those that
leave the files. An import of another file may then show that was hidden before: one with the id of
an import that is lost, which only arrows in the paths can bring about.
-/

namespace CodeAtlas

/-- The node without its community. -/
def Node.placeless (n : Node) : Node :=
  { n with communityId := none }

namespace RepoGraph

/-- The edges of a kind. -/
def edgesOf (g : RepoGraph) (kind : EdgeKind) : List Edge :=
  g.edges.filter (·.kind == kind)

/-- An edge leaves a node that belongs to one of some files. -/
def leaves (g : RepoGraph) (broken : String → Bool) (e : Edge) : Bool :=
  g.nodes.any fun n => n.id == e.source && broken n.filePath

/-- What becomes of a graph if the texts of some files are lost. -/
structure Loses (g h : RepoGraph) (broken : String → Bool) : Prop where
  files : h.nodes.filter Node.isFile = g.nodes.filter Node.isFile
  symbols : h.symbols.map Node.placeless =
    (g.symbols.filter fun n => ! broken n.filePath).map Node.placeless
  definitions : h.edgesOf .definedIn = (g.edgesOf .definedIn).filter (! g.leaves broken ·)
  /-- No import of a file with a text is lost. -/
  imports : ((g.edgesOf .imports).filter (! g.leaves broken ·)).Sublist (h.edgesOf .imports)
  /-- An import that was not there before has the id of one that is lost. -/
  newImports : ∀ e ∈ h.edgesOf .imports, e ∈ (g.edgesOf .imports).filter (! g.leaves broken ·) ∨
    ∃ e' ∈ g.edgesOf .imports, g.leaves broken e' = true ∧ e'.id = e.id
  /-- Without arrows in the paths there is no such import. -/
  importsOnly : (∀ n ∈ g.nodes, Arrowless n.filePath.toList) →
    h.edgesOf .imports = (g.edgesOf .imports).filter (! g.leaves broken ·)

end RepoGraph

namespace FileReading

/-- The file without its text, if it is one of some files. -/
def masked (broken : String → Bool) (f : FileReading) : FileReading :=
  if broken f.path then { f with outline := none } else f

variable {broken : String → Bool} {f : FileReading}

theorem masked_of_broken (lost : broken f.path = true) :
    f.masked broken = { f with outline := none } := by
  simp [masked, lost]

theorem masked_of_whole (whole : broken f.path = false) : f.masked broken = f := by
  simp [masked, whole]

@[simp] theorem masked_path (broken : String → Bool) (f : FileReading) :
    (f.masked broken).path = f.path := by
  unfold masked
  split <;> rfl

@[simp] theorem masked_node (broken : String → Bool) (f : FileReading) :
    (f.masked broken).node = f.node := by
  unfold masked
  split <;> rfl

theorem masked_symbols (broken : String → Bool) (f : FileReading) :
    (f.masked broken).symbols = if broken f.path then [] else f.symbols := by
  unfold masked
  split <;> rfl

theorem Plain.masked (plain : f.Plain) : (f.masked broken).Plain := by
  by_cases lost : broken f.path = true
  · intro o known
    simp [masked_of_broken lost] at known
  · rwa [masked_of_whole (Bool.eq_false_iff.mpr lost)]

end FileReading

namespace Assembly

variable {files : List FileReading} {broken : String → Bool} {rule : CandidateRule}

/-! ### Files without texts -/

theorem dropRepeated_map {g : FileReading → FileReading} (paths : ∀ f, (g f).path = f.path)
    (files : List FileReading) : dropRepeated (files.map g) = (dropRepeated files).map g := by
  fun_induction dropRepeated files with
  | case1 => simp [dropRepeated]
  | case2 f => simp [dropRepeated]
  | case3 f f' rest same ih => simpa [dropRepeated, paths, same] using ih
  | case4 f f' rest different ih => simpa [dropRepeated, paths, different] using ih

/-- Files keep their places when they lose their texts. -/
theorem sortedFiles_masked :
    sortedFiles (files.map (FileReading.masked broken)) =
      (sortedFiles files).map (FileReading.masked broken) := by
  unfold sortedFiles
  rw [← dropRepeated_map (FileReading.masked_path broken)]
  congr 1
  refine (List.map_mergeSort ?_).symm
  intro f _ g _
  simp

/-- A file that loses its text imports nothing; the others import the files they did. -/
theorem resolvedImports_masked (f : FileReading) :
    resolvedImports (Sources.ofFiles (files.map (FileReading.masked broken))) (f.masked broken) =
      if broken f.path then [] else resolvedImports (Sources.ofFiles files) f := by
  have paths : (files.map (FileReading.masked broken)).map FileReading.path =
      files.map FileReading.path := by
    simp [Function.comp_def]
  have present : (Sources.ofFiles (files.map (FileReading.masked broken))).paths.contains =
      (Sources.ofFiles files).paths.contains := by
    rw [Sources.contains_eq, Sources.contains_eq, paths]
  by_cases lost : broken f.path = true
  · rw [FileReading.masked_of_broken lost, if_pos lost]
    rfl
  · rw [FileReading.masked_of_whole (Bool.eq_false_iff.mpr lost), if_neg lost, resolvedImports,
      resolvedImports, present]

/-- What belongs to files with texts is what is left of what belongs to all files. -/
theorem filter_flatMap_files {β : Type} {items : FileReading → List β} {lost : β → Bool}
    (belongs : ∀ f ∈ files, ∀ x ∈ items f, lost x = broken f.path) :
    (files.flatMap items).filter (! lost ·) =
      files.flatMap fun f => if broken f.path then [] else items f := by
  rw [List.filter_flatMap, List.flatMap_congr]
  intro f member
  by_cases gone : broken f.path = true
  · rw [if_pos gone, List.filter_eq_nil_iff]
    intro x inside
    simp [belongs f member x inside, gone]
  · rw [if_neg gone, List.filter_eq_self]
    intro x inside
    simp [belongs f member x inside, gone]

/-! ### Nodes -/

/-- Communities are written onto symbols only. -/
theorem filter_assign (communities : List Community) (nodes : List Node) :
    (Communities.assign communities nodes).filter Node.isFile = nodes.filter Node.isFile := by
  unfold Communities.assign
  induction nodes with
  | nil => rfl
  | cons n rest ih =>
    by_cases file : n.isFile = true
    · simpa [file] using ih
    · have symbol : ∀ c, Node.isFile { n with communityId := c } = n.isFile := fun _ => rfl
      simpa [file, symbol] using ih

section

variable (plain : ∀ f ∈ files, f.Plain) (owner name branch : String)

include plain

theorem isFile_of_mem_symbols {n : Node}
    (member : n ∈ (sortedFiles files).flatMap FileReading.symbols) : n.isFile = false := by
  obtain ⟨f, inFiles, declared⟩ := List.mem_flatMap.mp member
  exact symbols_isFile plain inFiles declared

omit plain in
theorem isFile_of_mem_files {n : Node} (member : n ∈ (sortedFiles files).map FileReading.node) :
    n.isFile = true := by
  obtain ⟨f, -, rfl⟩ := List.mem_map.mp member
  rfl

/-- The file nodes of a graph are those of the files. -/
theorem build_files : (build owner name branch files rule).nodes.filter Node.isFile =
    (sortedFiles files).map FileReading.node := by
  have noFiles : ((sortedFiles files).flatMap FileReading.symbols).filter Node.isFile = [] := by
    rw [List.filter_eq_nil_iff]
    intro n member
    simp [isFile_of_mem_symbols plain member]
  have allFiles : ((sortedFiles files).map FileReading.node).filter Node.isFile =
      (sortedFiles files).map FileReading.node := by
    rw [List.filter_eq_self]
    intro n member
    exact isFile_of_mem_files member
  unfold build
  rw [filter_assign, Sources.ofFiles_files plain, Sources.ofFiles_symbols plain, List.map_map,
    List.filter_append, noFiles, List.append_nil]
  exact allFiles

/-- The symbols of a graph are those of the files, communities apart. -/
theorem build_symbols : (build owner name branch files rule).symbols.map Node.placeless =
    (sortedFiles files).flatMap FileReading.symbols := by
  have split : ∀ nodes : List Node, (nodes.filter (! ·.isFile)).map Node.placeless =
      (nodes.map Node.placeless).filter (! ·.isFile) := by
    intro nodes
    rw [List.filter_map]
    rfl
  have noSymbols : ((sortedFiles files).map FileReading.node).filter (! ·.isFile) = [] := by
    rw [List.filter_eq_nil_iff]
    intro n member
    simp [isFile_of_mem_files member]
  have allSymbols : ((sortedFiles files).flatMap FileReading.symbols).filter (! ·.isFile) =
      (sortedFiles files).flatMap FileReading.symbols := by
    rw [List.filter_eq_self]
    intro n member
    simp [isFile_of_mem_symbols plain member]
  have placeless : ∀ n ∈ (sortedFiles files).map FileReading.node ++
      (sortedFiles files).flatMap FileReading.symbols, n.placeless = n := by
    intro n member
    rcases List.mem_append.mp member with ofFile | ofSymbol
    · obtain ⟨f, -, rfl⟩ := List.mem_map.mp ofFile
      rfl
    · obtain ⟨f, -, declared⟩ := List.mem_flatMap.mp ofSymbol
      obtain ⟨d, -, rfl⟩ := List.mem_map.mp declared
      rfl
  unfold RepoGraph.symbols build
  rw [split, Communities.assign_map Node.placeless (fun _ _ => rfl), Sources.ofFiles_files plain,
    Sources.ofFiles_symbols plain, List.map_map]
  show ((List.map _ ((sortedFiles files).map FileReading.node ++ _)).filter _) = _
  rw [List.map_congr_left placeless, List.map_id', List.filter_append, noSymbols, allSymbols,
    List.nil_append]

/-- Whether an edge leaves one of some files is told by the node that it leaves. -/
theorem leaves_eq {e : Edge} {n : Node} (member : n ∈ (build owner name branch files rule).nodes)
    (source : e.source = n.id) :
    (build owner name branch files rule).leaves broken e = broken n.filePath := by
  rw [Bool.eq_iff_iff, RepoGraph.leaves, List.any_eq_true]
  constructor
  · intro left
    obtain ⟨m, inNodes, leaves⟩ := left
    rw [Bool.and_eq_true, beq_iff_eq] at leaves
    obtain rfl := node_unique plain owner name branch rule inNodes member (leaves.1.trans source)
    exact leaves.2
  · intro lost
    exact ⟨n, member, by simp [source, lost]⟩

/-- An edge that leaves the node of a file leaves that file. -/
theorem leaves_of_file {f : FileReading} (inFiles : f ∈ sortedFiles files) {e : Edge}
    (source : e.source = f.id) :
    (build owner name branch files rule).leaves broken e = broken f.path := by
  obtain ⟨n, member, ids, -, path⟩ := exists_fileNode plain owner name branch rule inFiles
  rw [leaves_eq plain owner name branch member (source.trans ids.symm), path]

/-- An edge that leaves a symbol of a file leaves that file. -/
theorem leaves_of_symbol {f : FileReading} (inFiles : f ∈ sortedFiles files) {n : Node}
    (declared : n ∈ f.symbols) {e : Edge} (source : e.source = n.id) :
    (build owner name branch files rule).leaves broken e = broken f.path := by
  obtain ⟨m, member, ids, -, path⟩ := exists_symbolNode plain owner name branch rule inFiles declared
  rw [leaves_eq plain owner name branch member (source.trans ids.symm), path]

/-! ### Edges of a kind -/

section

variable {s : Sources} {d : Declared} {resolved : List (Import × String)} {e : Edge}

omit plain

theorem kind_of_mem_declarationEdges (member : e ∈ declarationEdges d) : e.kind = .definedIn := by
  obtain ⟨n, -, rfl⟩ := List.mem_map.mp member
  rfl

theorem kind_of_mem_importEdges {f : FileReading} (member : e ∈ importEdges f resolved) :
    e.kind = .imports := by
  obtain ⟨i, -, rfl⟩ := List.mem_map.mp member
  rfl

theorem kind_of_mem_supertypeEdges (member : e ∈ supertypeEdges s d resolved) :
    e.kind = .extends ∨ e.kind = .implements := by
  obtain ⟨_, -, _, kind, _, reason, -, -, rfl⟩ := mem_supertypeEdges.mp member
  rcases reason with ⟨-, rfl⟩ | ⟨-, rfl⟩
  · exact .inl rfl
  · exact .inr rfl

theorem kind_of_mem_callEdges (member : e ∈ callEdges s rule d resolved) : e.kind = .calls := by
  obtain ⟨c, -, drawn⟩ := List.mem_flatMap.mp member
  obtain ⟨x, -, rfl⟩ := List.mem_map.mp drawn
  rfl

/-- No edge of a file says where something is defined. -/
theorem edgesOfFile_definitions (s : Sources) (rule : CandidateRule) (d : Declared) :
    (edgesOfFile s rule d).filter (·.kind == .definedIn) = [] := by
  rw [List.filter_eq_nil_iff]
  intro e member
  simp only [edgesOfFile, List.mem_append] at member
  rcases member with (imports | inherits) | calls
  · simp [kind_of_mem_importEdges imports]
  · rcases kind_of_mem_supertypeEdges inherits with kind | kind
    · simp [kind]
    · simp [kind]
  · simp [kind_of_mem_callEdges calls]

theorem edgesOfFile_imports (s : Sources) (rule : CandidateRule) (d : Declared) :
    (edgesOfFile s rule d).filter (·.kind == .imports) =
      importEdges d.file (resolvedImports s d.file) := by
  have imports : ∀ e ∈ importEdges d.file (resolvedImports s d.file),
      (e.kind == .imports) = true := by
    intro e member
    simp [kind_of_mem_importEdges member]
  have inherits : ∀ e ∈ supertypeEdges s d (resolvedImports s d.file),
      ¬ (e.kind == .imports) = true := by
    intro e member
    rcases kind_of_mem_supertypeEdges member with kind | kind
    · simp [kind]
    · simp [kind]
  have calls : ∀ e ∈ callEdges s rule d (resolvedImports s d.file),
      ¬ (e.kind == .imports) = true := by
    intro e member
    simp [kind_of_mem_callEdges member]
  rw [edgesOfFile, List.filter_append, List.filter_append, List.filter_eq_self.mpr imports,
    List.filter_eq_nil_iff.mpr inherits, List.filter_eq_nil_iff.mpr calls, List.append_nil,
    List.append_nil]

end

/-- The edges of a kind are the first of each id among the drawn ones of the kind. -/
theorem build_edgesOf (kind : EdgeKind) : (build owner name branch files rule).edgesOf kind =
    distinctEdges {} ((drawnEdges files rule).filter (·.kind == kind)) := by
  rw [RepoGraph.edgesOf, build_edges]
  apply filter_distinctEdges
  · intro e member e' member' same
    have drawn := (mem_drawnEdges plain).mp member
    have drawn' := (mem_drawnEdges plain).mp member'
    rw [drawn.id_eq, drawn'.id_eq] at same
    rw [(Edge.idOf_cut same).1]
  · simp

/-- Of the drawn edges those that say where something is defined are the symbols'. -/
theorem drawnEdges_definitions : (drawnEdges files rule).filter (·.kind == .definedIn) =
    (sortedFiles files).flatMap fun f => declarationEdges ⟨f, f.symbols⟩ := by
  have all : ∀ f : FileReading, (declarationEdges ⟨f, f.symbols⟩).filter (·.kind == .definedIn) =
      declarationEdges ⟨f, f.symbols⟩ := by
    intro f
    rw [List.filter_eq_self]
    intro e member
    simp [kind_of_mem_declarationEdges member]
  rw [drawnEdges, List.filter_append, List.filter_flatMap, List.filter_flatMap,
    Sources.ofFiles_files plain]
  simp [List.flatMap_map, all, edgesOfFile_definitions]

/-- Of the drawn edges those of imports are the files'. -/
theorem drawnEdges_imports : (drawnEdges files rule).filter (·.kind == .imports) =
    (sortedFiles files).flatMap fun f =>
      importEdges f (resolvedImports (Sources.ofFiles files) f) := by
  have none : ∀ f : FileReading, (declarationEdges ⟨f, f.symbols⟩).filter (·.kind == .imports) =
      [] := by
    intro f
    rw [List.filter_eq_nil_iff]
    intro e member
    simp [kind_of_mem_declarationEdges member]
  rw [drawnEdges, List.filter_append, List.filter_flatMap, List.filter_flatMap,
    Sources.ofFiles_files plain]
  simp [List.flatMap_map, none, edgesOfFile_imports]

/-! ### What is lost -/

theorem plain_masked (broken : String → Bool) :
    ∀ f ∈ files.map (FileReading.masked broken), f.Plain := by
  intro f member
  obtain ⟨g, inFiles, rfl⟩ := List.mem_map.mp member
  exact (plain g inFiles).masked

/-- The edges that say where something is defined are lost with the texts of the files they
leave. -/
theorem definitions_masked (broken : String → Bool) :
    (drawnEdges (files.map (FileReading.masked broken)) rule).filter (·.kind == .definedIn) =
      ((drawnEdges files rule).filter (·.kind == .definedIn)).filter
        (! (build owner name branch files rule).leaves broken ·) := by
  have left : ∀ f : FileReading,
      declarationEdges ⟨f.masked broken, (f.masked broken).symbols⟩ =
        if broken f.path then [] else declarationEdges ⟨f, f.symbols⟩ := by
    intro f
    by_cases lost : broken f.path = true
    · rw [FileReading.masked_symbols, if_pos lost, if_pos lost]
      rfl
    · rw [FileReading.masked_of_whole (Bool.eq_false_iff.mpr lost), if_neg lost]
  have belongs : ∀ f ∈ sortedFiles files, ∀ e ∈ declarationEdges ⟨f, f.symbols⟩,
      (build owner name branch files rule).leaves broken e = broken f.path := by
    intro f inFiles e member
    obtain ⟨n, declared, rfl⟩ := List.mem_map.mp member
    exact leaves_of_symbol plain owner name branch inFiles declared rfl
  rw [drawnEdges_definitions (plain_masked plain broken), drawnEdges_definitions plain,
    sortedFiles_masked, List.flatMap_map, filter_flatMap_files belongs]
  simp only [left]

/-- The imports of files are lost with their texts. -/
theorem imports_masked (broken : String → Bool) :
    (drawnEdges (files.map (FileReading.masked broken)) rule).filter (·.kind == .imports) =
      ((drawnEdges files rule).filter (·.kind == .imports)).filter
        (! (build owner name branch files rule).leaves broken ·) := by
  have left : ∀ f : FileReading, importEdges (f.masked broken)
      (resolvedImports (Sources.ofFiles (files.map (FileReading.masked broken)))
        (f.masked broken)) =
      if broken f.path then [] else importEdges f (resolvedImports (Sources.ofFiles files) f) := by
    intro f
    rw [resolvedImports_masked]
    by_cases lost : broken f.path = true
    · rw [if_pos lost, if_pos lost]
      rfl
    · rw [FileReading.masked_of_whole (Bool.eq_false_iff.mpr lost), if_neg lost, if_neg lost]
  have belongs : ∀ f ∈ sortedFiles files,
      ∀ e ∈ importEdges f (resolvedImports (Sources.ofFiles files) f),
        (build owner name branch files rule).leaves broken e = broken f.path := by
    intro f inFiles e member
    obtain ⟨x, -, rfl⟩ := List.mem_map.mp member
    exact leaves_of_file plain owner name branch inFiles rfl
  rw [drawnEdges_imports (plain_masked plain broken), drawnEdges_imports plain,
    sortedFiles_masked, List.flatMap_map, filter_flatMap_files belongs]
  simp only [left]

/-- Edges of one id that say where something is defined leave one file. -/
theorem leaves_definition {e e' : Edge} (drawn : Drawn files rule e) (drawn' : Drawn files rule e')
    (kind : e.kind = .definedIn) (same : e.id = e'.id) :
    (build owner name branch files rule).leaves broken e =
      (build owner name branch files rule).leaves broken e' := by
  rw [drawn.id_eq, drawn'.id_eq] at same
  have kind' : e'.kind = .definedIn := (Edge.idOf_cut same).1.symm.trans kind
  obtain ⟨f, inF, d, declared, source, target⟩ := drawn.definition kind
  obtain ⟨g, inG, d', declared', source', target'⟩ := drawn'.definition kind'
  rw [kind, kind', source, source', target, target'] at same
  obtain ⟨kinds, paths, names⟩ := Edge.idOf_definedIn_inj
    ((plain f (sortedFiles_subset inF)).declaration declared).name
    ((plain g (sortedFiles_subset inG)).declaration declared').name same
  have sources : e.source = e'.source := by
    rw [source, source', FileReading.symbol_id, FileReading.symbol_id, kinds, paths, names]
  rw [RepoGraph.leaves, RepoGraph.leaves, sources]

/-- No arrow is in the path of a file if none is in those of the nodes. -/
theorem arrowless_of_nodes
    (free : ∀ n ∈ (build owner name branch files rule).nodes, Arrowless n.filePath.toList) :
    ∀ f ∈ files, Arrowless f.path.toList := by
  intro f inFiles
  have known : f.path ∈
      ((build owner name branch files rule).nodes.filter Node.isFile).map Node.filePath := by
    rw [build_fileNodes plain, sortedFiles_paths]
    exact List.mem_map_of_mem inFiles
  obtain ⟨n, member, path⟩ := List.mem_map.mp known
  rw [← path]
  exact free n (List.mem_of_mem_filter member)

/-- The symbols that are left are those of the files with texts. -/
theorem symbols_masked (broken : String → Bool) :
    (build owner name branch (files.map (FileReading.masked broken)) rule).symbols.map
        Node.placeless =
      ((build owner name branch files rule).symbols.filter fun n => ! broken n.filePath).map
        Node.placeless := by
  have kept : (((build owner name branch files rule).symbols.filter
      fun n => ! broken n.filePath).map Node.placeless) =
      ((build owner name branch files rule).symbols.map Node.placeless).filter
        fun n => ! broken n.filePath := by
    rw [List.filter_map]
    rfl
  have belongs : ∀ f ∈ sortedFiles files, ∀ n ∈ f.symbols, broken n.filePath = broken f.path := by
    intro f _ n declared
    obtain ⟨d, -, rfl⟩ := List.mem_map.mp declared
    rfl
  rw [kept, build_symbols (plain_masked plain broken), build_symbols plain, sortedFiles_masked,
    List.flatMap_map, filter_flatMap_files belongs]
  simp only [FileReading.masked_symbols]

/-- No import of a file with a text is lost. -/
theorem imports_sublist (broken : String → Bool) :
    (((build owner name branch files rule).edgesOf .imports).filter
      (! (build owner name branch files rule).leaves broken ·)).Sublist
      ((build owner name branch (files.map (FileReading.masked broken)) rule).edgesOf .imports) := by
  rw [build_edgesOf (plain_masked plain broken), build_edgesOf plain,
    imports_masked plain owner name branch]
  exact filter_distinctEdges_sublist _ (by simp)

/-- An import that is left was there before, or it has the id of one that is lost. -/
theorem mem_imports_masked {e : Edge}
    (member : e ∈ (build owner name branch (files.map (FileReading.masked broken)) rule).edgesOf
      .imports) :
    e ∈ ((build owner name branch files rule).edgesOf .imports).filter
        (! (build owner name branch files rule).leaves broken ·) ∨
      ∃ e' ∈ (build owner name branch files rule).edgesOf .imports,
        (build owner name branch files rule).leaves broken e' = true ∧ e'.id = e.id := by
  have plain' := plain_masked plain broken
  have among := member
  rw [build_edgesOf plain', imports_masked plain owner name branch] at member
  have drawn := List.mem_of_mem_filter ((distinctEdges_sublist _ _).subset member)
  have isNew : ({} : Std.HashSet String).contains e.id = false := by simp
  obtain ⟨e', kept, same⟩ := distinctEdges_covers drawn (distinctEdges_loopless _ _ e member) isNew
  rw [← build_edgesOf plain owner name branch] at kept
  by_cases lost : (build owner name branch files rule).leaves broken e' = true
  · exact .inr ⟨e', kept, lost, same⟩
  · have stays : e' ∈ ((build owner name branch files rule).edgesOf .imports).filter
        (! (build owner name branch files rule).leaves broken ·) :=
      List.mem_filter.mpr ⟨kept, by simpa using lost⟩
    have ids : (((build owner name branch (files.map (FileReading.masked broken))
        rule).edgesOf .imports).map Edge.id).Nodup := by
      rw [build_edgesOf plain']
      exact (distinctEdges_ids _ _).1
    have left := (imports_sublist plain owner name branch broken).subset stays
    rw [List.inj_on_of_nodup_map ids among left same.symm]
    exact .inl stays

/-- A graph of files some of whose texts are lost is what is left of the graph of all texts. -/
theorem build_loses (broken : String → Bool) :
    (build owner name branch files rule).Loses
      (build owner name branch (files.map (FileReading.masked broken)) rule) broken := by
  have plain' := plain_masked plain broken
  have ofKind : ∀ {kind : EdgeKind} {e : Edge},
      e ∈ (drawnEdges files rule).filter (·.kind == kind) → Drawn files rule e ∧ e.kind = kind := by
    intro kind e member
    obtain ⟨listed, fits⟩ := List.mem_filter.mp member
    exact ⟨(mem_drawnEdges plain).mp listed, eq_of_beq fits⟩
  constructor
  case files =>
    rw [build_files plain', build_files plain, sortedFiles_masked]
    simp [Function.comp_def]
  case symbols => exact symbols_masked plain owner name branch broken
  case definitions =>
    rw [build_edgesOf plain', build_edgesOf plain, definitions_masked plain owner name branch]
    refine (filter_distinctEdges ?_ (by simp)).symm
    intro e member e' member' same
    rw [leaves_definition plain owner name branch (ofKind member).1 (ofKind member').1
      (ofKind member).2 same]
  case imports => exact imports_sublist plain owner name branch broken
  case newImports =>
    intro e member
    exact mem_imports_masked plain owner name branch member
  case importsOnly =>
    intro free
    rw [build_edgesOf plain', build_edgesOf plain, imports_masked plain owner name branch]
    refine (filter_distinctEdges ?_ (by simp)).symm
    intro e member e' member' same
    have ends := (ofKind member).1.ends_eq plain
      (arrowless_of_nodes plain owner name branch free) (ofKind member').1 same
    rw [RepoGraph.leaves, RepoGraph.leaves, ends.2.1]

end

/-- Two imports share an id, because there are arrows in the paths: the one that is left out shows
when the other one is lost. -/
theorem build_hiddenImport (owner name branch : String) :
    let x : FileReading := ⟨"x.ts", .typeScript,
      some (Source.parse "import { a } from './y.ts->file:x.ts';\n" "x.ts")⟩
    let y : FileReading := ⟨"x.ts->file:y.ts", .typeScript,
      some (Source.parse "import { b } from './x';\n" "x.ts->file:y.ts")⟩
    let z : FileReading := ⟨"y.ts->file:x.ts", .typeScript, some (Source.parse "" "y.ts->file:x.ts")⟩
    let g := build owner name branch [x, y, z] .firstMatch
    let h := build owner name branch [x.masked (· == "x.ts"), y, z] .firstMatch
    ∃ e ∈ h.edgesOf .imports, g.leaves (· == "x.ts") e = false ∧ e ∉ g.edgesOf .imports := by
  intro x y z g h
  have plain : ∀ f ∈ [x, y, z], f.Plain := by
    intro f member
    have genuine : f.Genuine := by
      rcases List.mem_cons.mp member with rfl | later
      · exact FileReading.genuine_parse _ (by decide)
      · rcases List.mem_pair.mp later with rfl | rfl
        · exact FileReading.genuine_parse _ (by decide)
        · exact FileReading.genuine_parse _ (by decide)
    exact genuine.plain
  have sorted : sortedFiles [x, y, z] = [x, y, z] := sortedFiles_of_strict (by decide)
  let shown := Edge.make x.id z.id .imports importConfidence "import-resolved"
  let hidden := Edge.make y.id x.id .imports importConfidence "import-resolved"
  have drawn : (drawnEdges [x, y, z] .firstMatch).filter (·.kind == .imports) =
      [shown, hidden] := by
    have resolvedX : resolvedImports (Sources.ofFiles [x, y, z]) x =
        [(⟨["a"], "./y.ts->file:x.ts", 1⟩, z.path)] := by
      unfold resolvedImports
      rw [Sources.contains_eq]
      decide +kernel
    have resolvedY : resolvedImports (Sources.ofFiles [x, y, z]) y =
        [(⟨["b"], "./x", 1⟩, x.path)] := by
      unfold resolvedImports
      rw [Sources.contains_eq]
      decide +kernel
    have resolvedZ : resolvedImports (Sources.ofFiles [x, y, z]) z = [] := by
      unfold resolvedImports
      rw [Sources.contains_eq]
      decide +kernel
    rw [drawnEdges_imports plain, sorted]
    simp only [List.flatMap_cons, List.flatMap_nil, resolvedX, resolvedY, resolvedZ]
    rfl
  have shownLost : g.leaves (· == "x.ts") shown = true :=
    leaves_of_file plain owner name branch (sorted ▸ List.mem_cons_self) rfl
  have hiddenKept : g.leaves (· == "x.ts") hidden = false :=
    leaves_of_file plain owner name branch
      (sorted ▸ List.mem_cons_of_mem x List.mem_cons_self) rfl
  have ids : shown.id = hidden.id := by decide
  have shownProper : shown.source ≠ shown.target := by decide
  have hiddenProper : hidden.source ≠ hidden.target := by decide
  have different : hidden ≠ shown := by
    intro same
    exact absurd (congrArg Edge.source same) (by decide)
  refine ⟨hidden, ?_, hiddenKept, ?_⟩
  · have lost : h = build owner name branch ([x, y, z].map (FileReading.masked (· == "x.ts")))
      .firstMatch := rfl
    rw [lost, build_edgesOf (plain_masked plain _), imports_masked plain owner name branch, drawn]
    simp [g, shownLost, hiddenKept, distinctEdges, hiddenProper]
  · rw [build_edgesOf plain, drawn]
    simp [distinctEdges, shownProper, ids, different]

end Assembly

end CodeAtlas
