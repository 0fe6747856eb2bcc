import CodeAtlas.Proofs.Assembly.Ambiguity
import CodeAtlas.Proofs.Assembly.Unread

/-!
# Files that do not touch each other

What a name or an import in a file means is looked up in the file, in the files that it imports, and
among all symbols of the name. One more file changes none of this for the others if it declares no name
that they mention and no import of theirs means another file through it. The graph without the file is
then what is left of the graph with it.
-/

namespace CodeAtlas

/-- A graph is what is left of another one without the file at a path. -/
structure RepoGraph.Without (h g : RepoGraph) (path : String) : Prop where
  nodes : h.nodes.map Node.placeless =
    (g.nodes.filter (·.filePath != path)).map Node.placeless
  edges : h.edges = g.edges.filter (! g.leaves (· == path) ·)

namespace FileReading

/-- A name is that of something called in a file, or of a supertype there. -/
def Mentions (f : FileReading) (name : String) : Prop :=
  (∃ c ∈ f.calls, c.callee = name) ∨
    ∃ d ∈ f.declarations, name ∈ d.extended ∨ name ∈ d.implemented

instance (f : FileReading) (name : String) : Decidable (f.Mentions name) :=
  inferInstanceAs (Decidable (_ ∨ _))

/-- The file that an import means among those at some paths. -/
def target? (f : FileReading) (paths : List String) (i : Import) : Option String :=
  Source.importedFile? (fun path => decide (path ∈ paths)) f.path i.moduleName

end FileReading

namespace Assembly

variable {files more : List FileReading} {x : FileReading} {rule : CandidateRule}

/-! ### What belongs to the other files -/

theorem filter_flatMap_others {β : Type} {items : FileReading → List β} {lost : β → Bool}
    (broken : String → Bool) (belongs : ∀ f ∈ files, ∀ b ∈ items f, lost b = broken f.path) :
    (files.flatMap items).filter (! lost ·) =
      (files.filter fun f => ! broken f.path).flatMap items := by
  rw [filter_flatMap_files belongs]
  clear belongs
  induction files with
  | nil => rfl
  | cons f rest ih =>
    by_cases gone : broken f.path = true
    · simp [gone, ih]
    · simp [gone, ih]

section

variable (added : more.Perm (x :: files)) (distinct : (more.map FileReading.path).Nodup)

include added

theorem mem_more {f : FileReading} (member : f ∈ files) : f ∈ more :=
  added.mem_iff.mpr (List.mem_cons_of_mem x member)

include distinct

theorem path_ne {f : FileReading} (member : f ∈ files) : f.path ≠ x.path := by
  have paths : ((x :: files).map FileReading.path).Nodup :=
    (added.map FileReading.path).nodup_iff.mp distinct
  intro same
  exact (List.nodup_cons.mp paths).1 (same ▸ List.mem_map_of_mem member)

/-- The other files keep their order. -/
theorem sortedFiles_others : sortedFiles files =
    (sortedFiles more).filter fun f => ! f.path == x.path := by
  have strict := (sortedFiles_strict more).filter fun f => ! f.path == x.path
  have distinctFiles : (files.map FileReading.path).Nodup :=
    (List.nodup_cons.mp ((added.map FileReading.path).nodup_iff.mp distinct)).2
  have same : ∀ f, f ∈ sortedFiles files ↔
      f ∈ (sortedFiles more).filter fun f => ! f.path == x.path := by
    intro f
    rw [List.mem_filter, mem_sortedFiles distinctFiles, mem_sortedFiles distinct, added.mem_iff,
      List.mem_cons]
    constructor
    · intro member
      exact ⟨.inr member, by simpa using path_ne added distinct member⟩
    · rintro ⟨rfl | member, other⟩
      · simp at other
      · exact member
  have nodup (fs : List FileReading) : (sortedFiles fs).Nodup := .of_map _ (sortedFiles_nodup fs)
  refine List.Perm.eq_of_pairwise ?_ (sortedFiles_strict files) strict
    ((List.perm_ext_iff_of_nodup (nodup files) ((nodup more).filter _)).mpr same)
  intro f g _ _ less greater
  exact absurd greater (String.lt_asymm less)

end

/-! ### What names and imports mean -/

section

variable (added : more.Perm (x :: files)) (distinct : (more.map FileReading.path).Nodup)
  (plain : ∀ f ∈ more, f.Plain)

include added plain

theorem plain_others : ∀ f ∈ files, f.Plain :=
  fun f member => plain f (mem_more added member)

include distinct

/-- The symbols of the other files keep their order. -/
theorem symbols_others : (Sources.ofFiles files).symbols =
    (Sources.ofFiles more).symbols.filter fun n => ! n.filePath == x.path := by
  have belongs : ∀ f ∈ sortedFiles more, ∀ n ∈ f.symbols,
      (n.filePath == x.path) = (f.path == x.path) := by
    intro f _ n declared
    obtain ⟨d, -, rfl⟩ := List.mem_map.mp declared
    rfl
  rw [Sources.ofFiles_symbols (plain_others added plain), Sources.ofFiles_symbols plain,
    sortedFiles_others added distinct,
    filter_flatMap_others (· == x.path) belongs]

/-- A name that the file does not declare has the same candidates without it. -/
theorem sortedIds_others {name : String} (foreign : ∀ d ∈ x.declarations, d.name ≠ name)
    (fits : NodeKind → Bool) : Names.sortedIds fits (Sources.ofFiles files).symbols name =
      Names.sortedIds fits (Sources.ofFiles more).symbols name := by
  rw [Names.sortedIds, Names.sortedIds, symbols_others added distinct plain, List.filter_filter]
  congr 2
  apply List.filter_congr
  intro n member
  by_cases own : n.filePath = x.path
  · rw [Sources.ofFiles_symbols plain] at member
    obtain ⟨f, inFiles, declared⟩ := List.mem_flatMap.mp member
    obtain ⟨d, inFile, rfl⟩ := List.mem_map.mp declared
    have inMore : x ∈ sortedFiles more :=
      (mem_sortedFiles distinct).mpr (added.mem_iff.mpr List.mem_cons_self)
    obtain rfl : f = x := sortedFiles_path_inj inFiles inMore own
    simp [foreign d inFile]
  · simp [own]

/-- The other files declare the same symbols. -/
theorem symbolsOf_others {path : String} (member : path ∈ files.map FileReading.path) :
    (Sources.ofFiles files).symbolsOf path = (Sources.ofFiles more).symbolsOf path := by
  obtain ⟨f, inFiles, rfl⟩ := List.mem_map.mp member
  have inMore := (mem_sortedFiles distinct).mpr (mem_more added inFiles)
  have taken : f ∈ sortedFiles files := by
    rw [sortedFiles_others added distinct, List.mem_filter]
    exact ⟨inMore, by simpa using path_ne added distinct inFiles⟩
  rw [Sources.symbolsOf_path (plain_others added plain) taken, Sources.symbolsOf_path plain inMore]

/-- What is looked up in the file that a name is imported from is found there with and without the
further file. -/
theorem importedFrom_others {f : FileReading} (look : List Node → Option String) (name : String) :
    ((importedFrom? (resolvedImports (Sources.ofFiles files) f) name).bind fun path =>
        look ((Sources.ofFiles files).symbolsOf path)) =
      (importedFrom? (resolvedImports (Sources.ofFiles files) f) name).bind fun path =>
        look ((Sources.ofFiles more).symbolsOf path) := by
  cases found : importedFrom? (resolvedImports (Sources.ofFiles files) f) name with
  | none => rfl
  | some path =>
    obtain ⟨⟨i, _⟩, bound, rfl⟩ := Option.map_eq_some_iff.mp found
    have resolved := mem_resolvedImports.mp (List.mem_reverse.mp (List.mem_of_find?_eq_some bound))
    have present := (Sources.contains_paths files _).mp
      (Source.present_of_importedFile resolved.2.2)
    rw [Option.bind_some, Option.bind_some, symbolsOf_others added distinct plain present]

/-- What a supertype's name means does not depend on a file that does not declare it. -/
theorem supertypeOf_others {f : FileReading} {name : String}
    (foreign : ∀ d ∈ x.declarations, d.name ≠ name) :
    supertypeOf? (Sources.ofFiles files) ⟨f, f.symbols⟩
        (resolvedImports (Sources.ofFiles files) f) name =
      supertypeOf? (Sources.ofFiles more) ⟨f, f.symbols⟩
        (resolvedImports (Sources.ofFiles files) f) name := by
  rw [supertypeOf?, supertypeOf?,
    importedFrom_others added distinct plain (Names.supertype? · name) name,
    Names.firstSupertype?, sortedIds_others added distinct plain foreign, Names.firstSupertype?]

/-- What a called name means does not depend on a file that does not declare it. -/
theorem callTargets_others {f : FileReading} {name : String}
    (foreign : ∀ d ∈ x.declarations, d.name ≠ name) :
    callTargets (Sources.ofFiles files) rule ⟨f, f.symbols⟩
        (resolvedImports (Sources.ofFiles files) f) name =
      callTargets (Sources.ofFiles more) rule ⟨f, f.symbols⟩
        (resolvedImports (Sources.ofFiles files) f) name := by
  rw [callTargets, callTargets,
    importedFrom_others added distinct plain (Names.callable? · name) name,
    Names.callableIds, sortedIds_others added distinct plain foreign, Names.callableIds]

end

/-! ### Edges -/

section

variable (added : more.Perm (x :: files)) (distinct : (more.map FileReading.path).Nodup)
  (imports : ∀ f ∈ files, ∀ i ∈ f.imports,
    f.target? (files.map FileReading.path) i = f.target? (more.map FileReading.path) i)

include imports

theorem resolvedImports_others {f : FileReading} (member : f ∈ files) :
    resolvedImports (Sources.ofFiles more) f = resolvedImports (Sources.ofFiles files) f := by
  unfold resolvedImports
  apply List.filterMap_congr
  intro i inFile
  have same := imports f member i inFile
  simp only [FileReading.target?] at same
  rw [Sources.contains_eq, Sources.contains_eq, same]

variable (plain : ∀ f ∈ more, f.Plain)
  (unmentioned : ∀ f ∈ files, ∀ d ∈ x.declarations, ¬ f.Mentions d.name)

include added distinct plain unmentioned

/-- The other files draw the same edges. -/
theorem edgesOfFile_others {f : FileReading} (member : f ∈ files) :
    edgesOfFile (Sources.ofFiles files) rule ⟨f, f.symbols⟩ =
      edgesOfFile (Sources.ofFiles more) rule ⟨f, f.symbols⟩ := by
  have foreign {name : String} (mentions : f.Mentions name) : ∀ d ∈ x.declarations, d.name ≠ name := by
    rintro d declared rfl
    exact unmentioned f member d declared mentions
  have supertypes : supertypeEdges (Sources.ofFiles files) ⟨f, f.symbols⟩
        (resolvedImports (Sources.ofFiles files) f) =
      supertypeEdges (Sources.ofFiles more) ⟨f, f.symbols⟩
        (resolvedImports (Sources.ofFiles files) f) := by
    apply List.flatMap_congr
    intro d declared
    apply List.filterMap_congr
    rintro ⟨name, kind⟩ listed
    have inherits : name ∈ d.extended ∨ name ∈ d.implemented := by
      simp only [List.mem_append, List.mem_map, Prod.mk.injEq] at listed
      grind
    simp only [supertypeOf_others added distinct plain (foreign (.inr ⟨d, declared, inherits⟩))]
  have calls : callEdges (Sources.ofFiles files) rule ⟨f, f.symbols⟩
        (resolvedImports (Sources.ofFiles files) f) =
      callEdges (Sources.ofFiles more) rule ⟨f, f.symbols⟩
        (resolvedImports (Sources.ofFiles files) f) := by
    apply List.flatMap_congr
    intro c called
    simp only [callTargets_others added distinct plain (foreign (.inl ⟨c, called, rfl⟩))]
  simp only [edgesOfFile, resolvedImports_others imports member, supertypes, calls]

end

section

variable (plain : ∀ f ∈ more, f.Plain) (owner name branch : String)

include plain

/-- Every edge that a file draws leaves it. -/
theorem leaves_of_edgesOfFile {f : FileReading} (inFiles : f ∈ sortedFiles more) {s : Sources}
    {broken : String → Bool} {e : Edge} (member : e ∈ edgesOfFile s rule ⟨f, f.symbols⟩) :
    (build owner name branch more rule).leaves broken e = broken f.path := by
  simp only [edgesOfFile, List.mem_append] at member
  rcases member with (imports | inherits) | calls
  · obtain ⟨i, -, rfl⟩ := List.mem_map.mp imports
    exact leaves_of_file plain owner name branch inFiles rfl
  · obtain ⟨d, declared, name, kind, target, -, -, -, rfl⟩ := mem_supertypeEdges.mp inherits
    exact leaves_of_symbol plain owner _ branch inFiles (List.mem_map_of_mem declared) rfl
  · obtain ⟨c, -, drawn⟩ := List.mem_flatMap.mp calls
    obtain ⟨⟨target, tier⟩, -, rfl⟩ := List.mem_map.mp drawn
    rcases callerOf_mem ⟨f, f.symbols⟩ c.line with file | ⟨n, declared, symbol⟩
    · exact leaves_of_file plain owner name branch inFiles file
    · exact leaves_of_symbol plain owner name branch inFiles declared symbol

end

section

variable (added : more.Perm (x :: files)) (distinct : (more.map FileReading.path).Nodup)
  (imports : ∀ f ∈ files, ∀ i ∈ f.imports,
    f.target? (files.map FileReading.path) i = f.target? (more.map FileReading.path) i)
  (unmentioned : ∀ f ∈ files, ∀ d ∈ x.declarations, ¬ f.Mentions d.name)
  (plain : ∀ f ∈ more, f.Plain) (owner name branch : String)

include added distinct imports unmentioned plain

/-- The edges that the other files draw are what is left of all edges that are drawn. -/
theorem drawnEdges_others : drawnEdges files rule =
    (drawnEdges more rule).filter (! (build owner name branch more rule).leaves (· == x.path) ·) := by
  have definitions : ∀ f ∈ sortedFiles more, ∀ e ∈ declarationEdges ⟨f, f.symbols⟩,
      (build owner name branch more rule).leaves (· == x.path) e = (f.path == x.path) := by
    intro f inFiles e member
    obtain ⟨n, declared, rfl⟩ := List.mem_map.mp member
    exact leaves_of_symbol plain owner name branch inFiles declared rfl
  have others : ∀ f ∈ sortedFiles more, ∀ e ∈ edgesOfFile (Sources.ofFiles more) rule ⟨f, f.symbols⟩,
      (build owner name branch more rule).leaves (· == x.path) e = (f.path == x.path) :=
    fun f inFiles e member => leaves_of_edgesOfFile plain owner name branch inFiles member
  have same : ∀ f ∈ sortedFiles files, edgesOfFile (Sources.ofFiles files) rule ⟨f, f.symbols⟩ =
      edgesOfFile (Sources.ofFiles more) rule ⟨f, f.symbols⟩ := fun f inFiles =>
    edgesOfFile_others added distinct imports plain unmentioned (sortedFiles_subset inFiles)
  rw [drawnEdges, drawnEdges, Sources.ofFiles_files (plain_others added plain),
    Sources.ofFiles_files plain, List.filter_append, List.flatMap_map, List.flatMap_map,
    List.flatMap_map, List.flatMap_map, filter_flatMap_others (· == x.path) definitions,
    filter_flatMap_others (· == x.path) others, List.flatMap_congr same,
    sortedFiles_others added distinct]

omit imports unmentioned owner name branch in
/-- The nodes of the other files are what is left of all nodes. -/
theorem unassignedNodes_others : unassignedNodes files =
    (unassignedNodes more).filter (! ·.filePath == x.path) := by
  have nodes : (sortedFiles files).map FileReading.node =
      ((sortedFiles more).map FileReading.node).filter (! ·.filePath == x.path) := by
    rw [sortedFiles_others added distinct, List.filter_map]
    rfl
  rw [unassignedNodes, unassignedNodes, List.filter_append, ← symbols_others added distinct plain,
    Sources.ofFiles_files (plain_others added plain), Sources.ofFiles_files plain, List.map_map,
    List.map_map]
  exact congrArg (· ++ (Sources.ofFiles files).symbols) nodes

end

/-- Resolution is local: a file whose names the others do not mention, and through which none of their
imports means another file, adds its own nodes and edges to a graph and changes no other. -/
theorem build_without (owner name branch : String) (rule : CandidateRule)
    (added : more.Perm (x :: files)) (genuine : ∀ f ∈ more, f.Genuine)
    (distinct : (more.map FileReading.path).Nodup) (free : ∀ f ∈ more, Arrowless f.path.toList)
    (unmentioned : ∀ f ∈ files, ∀ d ∈ x.declarations, ¬ f.Mentions d.name)
    (imports : ∀ f ∈ files, ∀ i ∈ f.imports,
      f.target? (files.map FileReading.path) i = f.target? (more.map FileReading.path) i) :
    (build owner name branch files rule).Without (build owner name branch more rule) x.path := by
  have plain : ∀ f ∈ more, f.Plain := fun f member => (genuine f member).plain
  constructor
  case nodes =>
    have placeless (g : RepoGraph) : (g.nodes.filter (·.filePath != x.path)).map Node.placeless =
        (g.nodes.map Node.placeless).filter (! ·.filePath == x.path) := by
      rw [List.filter_map]
      rfl
    rw [placeless, build_nodes_map rule owner name branch files Node.placeless fun _ _ => rfl,
      build_nodes_map rule owner name branch more Node.placeless fun _ _ => rfl,
      unassignedNodes_others added distinct plain, List.filter_map]
    rfl
  case edges =>
    have edges_eq (files : List FileReading) :
        edges (Sources.ofFiles files) rule = distinctEdges {} (drawnEdges files rule) := rfl
    rw [build_edges, build_edges, edges_eq, edges_eq,
      drawnEdges_others added distinct imports unmentioned plain owner name branch]
    refine (filter_distinctEdges ?_ (by simp)).symm
    intro e member e' member' same
    -- as no path has an arrow, an id tells which node its edge leaves
    have ends := ((mem_drawnEdges plain).mp member).ends_eq plain free
      ((mem_drawnEdges plain).mp member') same
    rw [RepoGraph.leaves, RepoGraph.leaves, ends.2.1]

/-- A file between two others, of which one calls an imported function of the other. -/
theorem build_without_between :
    let f : FileReading := ⟨"a.py", .python,
      some (Source.parse "from c import load\n\ndef main():\n    load()\n" "a.py")⟩
    let x : FileReading := ⟨"b.py", .python,
      some (Source.parse "from c import load\n\ndef reload():\n    load()\n" "b.py")⟩
    let g : FileReading :=
      ⟨"c.py", .python, some (Source.parse "def load():\n    pass\n" "c.py")⟩
    (∀ y ∈ [f, x, g], y.Genuine) ∧ ([f, x, g].map FileReading.path).Nodup ∧
      (∀ y ∈ [f, x, g], Arrowless y.path.toList) ∧
      (∀ y ∈ [f, g], ∀ d ∈ x.declarations, ¬ y.Mentions d.name) ∧
      (∀ y ∈ [f, g], ∀ i ∈ y.imports, y.target? ([f, g].map FileReading.path) i =
        y.target? ([f, x, g].map FileReading.path) i) ∧
      (build "owner" "name" "main" [f, g] .splitAll).Without
        (build "owner" "name" "main" [f, x, g] .splitAll) "b.py" := by
  intro f x g
  have genuine : ∀ y ∈ [f, x, g], y.Genuine := by
    intro y member
    simp only [List.mem_cons, List.not_mem_nil, or_false] at member
    rcases member with rfl | rfl | rfl
    · exact FileReading.genuine_parse _ (by decide)
    · exact FileReading.genuine_parse _ (by decide)
    · exact FileReading.genuine_parse _ (by decide)
  have distinct : ([f, x, g].map FileReading.path).Nodup := by decide
  have free : ∀ y ∈ [f, x, g], Arrowless y.path.toList := by
    unfold Arrowless
    decide
  have unmentioned : ∀ y ∈ [f, g], ∀ d ∈ x.declarations, ¬ y.Mentions d.name := by
    decide +kernel
  have imports : ∀ y ∈ [f, g], ∀ i ∈ y.imports,
      y.target? ([f, g].map FileReading.path) i = y.target? ([f, x, g].map FileReading.path) i := by
    decide +kernel
  have without := build_without "owner" "name" "main" .splitAll (List.Perm.swap x f [g]) genuine
    distinct free unmentioned imports
  exact ⟨genuine, distinct, free, unmentioned, imports, without⟩

end Assembly

end CodeAtlas
