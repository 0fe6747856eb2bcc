import CodeAtlas.Proofs.Assembly.Calls

/-!
# Which declared supertypes are linked

The name of a supertype means a type of the same file before any other one. So a symbol is linked to
a type of that name, if there is one besides itself, unless its own file means the symbol itself by
the name: then the name is not looked for elsewhere, and no edge is drawn.
-/

namespace CodeAtlas

/-- The types with a name. -/
def RepoGraph.types (g : RepoGraph) (name : String) : List Node :=
  g.nodes.filter fun n => n.kind.isSupertype && n.label == name

/-- An edge of a kind leads for certain enough from a symbol to another one that is a type with a
name. -/
def RepoGraph.LinksType (g : RepoGraph) (kind : EdgeKind) (source name : String) : Prop :=
  ∃ e ∈ g.edges, e.kind = kind ∧ e.source = source ∧ e.confidence = 0.9 ∧
    ∃ n ∈ g.types name, n.id = e.target ∧ n.id ≠ source

/-- A declaration names a supertype that is to be linked by an edge of a kind. -/
def Declaration.Inherits (d : Declaration) (kind : EdgeKind) (name : String) : Prop :=
  name ∈ d.extended ∧ kind = .extends ∨ name ∈ d.implemented ∧ kind = .implements

/-- What a type's name means in a file: the class, else the interface. -/
inductive FileReading.TypeIn (f : FileReading) (name : String) : String → Prop where
  | classType : f.Declares .classType name →
      TypeIn f name (Node.idOfSymbol .classType f.path name)
  | interfaceType : ¬ f.Declares .classType name → f.Declares .interfaceType name →
      TypeIn f name (Node.idOfSymbol .interfaceType f.path name)

namespace Assembly

/-- What a type's name means in a file. -/
theorem supertype_iff {f : FileReading} {name id : String} :
    Names.supertype? f.symbols name = some id ↔ f.TypeIn name id := by
  refine ofKind_orElse.trans ?_
  constructor
  · rintro (⟨declares, rfl⟩ | ⟨none, declares, rfl⟩)
    · exact .classType declares
    · exact .interfaceType none declares
  · intro means
    cases means with
    | classType declares => exact .inl ⟨declares, rfl⟩
    | interfaceType none declares => exact .inr ⟨none, declares, rfl⟩

/-- A symbol is what a type's name means in its own file if it has the name, and is a class or an
interface beside no class of the name. -/
theorem typeIn_symbol {f : FileReading} (plain : f.Plain) {d : Declaration}
    (declared : d ∈ f.declarations) {name : String} :
    f.TypeIn name (f.symbol d).id ↔ d.name = name ∧
      (d.kind = .classType ∨ d.kind = .interfaceType ∧ ¬ f.Declares .classType name) := by
  have same : ∀ {kind : NodeKind}, f.Declares kind name →
      (f.symbol d).id = Node.idOfSymbol kind f.path name → d.kind = kind ∧ d.name = name := by
    intro kind declares ids
    obtain ⟨e, declared', rfl, rfl⟩ := declares
    exact Prod.mk.inj (FileReading.symbol_id_inj plain plain declared declared' ids).2
  constructor
  · intro means
    generalize ids : (f.symbol d).id = id at means
    cases means with
    | classType declares => exact ⟨(same declares ids).2, .inl (same declares ids).1⟩
    | interfaceType none declares =>
      exact ⟨(same declares ids).2, .inr ⟨(same declares ids).1, none⟩⟩
  · intro ⟨names, kinds⟩
    have here : f.Declares d.kind name := ⟨d, declared, rfl, names⟩
    rw [FileReading.symbol_id, names]
    rcases kinds with kind | ⟨kind, none⟩
    · rw [kind] at here ⊢
      exact .classType here
    · rw [kind] at here ⊢
      exact .interfaceType none here

/-- A type that a file declares makes its name mean something there. -/
theorem exists_typeIn {f : FileReading} {d : Declaration} (declared : d ∈ f.declarations)
    (isType : d.kind.isSupertype = true) : ∃ id, f.TypeIn d.name id := by
  by_cases hasClass : f.Declares .classType d.name
  · exact ⟨_, .classType hasClass⟩
  · have here : f.Declares d.kind d.name := ⟨d, declared, rfl, rfl⟩
    cases kind : d.kind with
    | classType => exact absurd (kind ▸ here) hasClass
    | interfaceType => exact ⟨_, .interfaceType hasClass (kind ▸ here)⟩
    | file | function | typeAlias | binding => simp [kind, NodeKind.isSupertype] at isType

/-- The types with a name in a graph are those that its files declare. -/
theorem mem_types (owner name branch : String) (files : List FileReading) (rule : CandidateRule)
    {label id : String} :
    id ∈ Names.sortedIds NodeKind.isSupertype (Sources.ofFiles files).symbols label ↔
      ∃ n ∈ (build owner name branch files rule).types label, n.id = id := by
  rw [build_sortedIds owner name branch files rule rfl, List.mem_mergeSort, List.mem_map]
  rfl

/-- The name of a type means something. -/
theorem exists_supertypeOf {s : Sources} (d : Declared) (resolved : List (Import × String))
    {name id : String} (member : id ∈ Names.sortedIds NodeKind.isSupertype s.symbols name) :
    ∃ target, supertypeOf? s d resolved name = some target := by
  unfold supertypeOf?
  split
  · exact ⟨_, rfl⟩
  · split
    · exact ⟨_, rfl⟩
    · have nonempty := List.ne_nil_of_mem member
      exact ⟨_, List.head?_eq_some_head nonempty⟩

/-- An edge that links a supertype is drawn for a name that a declaration gives. -/
theorem Drawn.inheritance {files : List FileReading} {rule : CandidateRule} {e : Edge}
    (drawn : Drawn files rule e) (kind : e.kind = .extends ∨ e.kind = .implements) :
    ∃ f ∈ sortedFiles files, ∃ d ∈ f.declarations, e.source = (f.symbol d).id ∧
      e.confidence = 0.9 ∧ ∃ name, d.Inherits e.kind name ∧
        supertypeOf? (Sources.ofFiles files) ⟨f, f.symbols⟩
          (resolvedImports (Sources.ofFiles files) f) name = some e.target := by
  cases drawn with
  | declaration => simp [Edge.make] at kind
  | imported => simp [Edge.make] at kind
  | supertype inFiles declared reason found =>
    have certain : Double.InUnit supertypeConfidence := by decide
    exact ⟨_, inFiles, _, declared, rfl, Double.clampUnit_eq certain, _, reason, found⟩
  | call => simp [Edge.make] at kind

section

variable {files : List FileReading} (plain : ∀ f ∈ files, f.Plain)

include plain

/-- What a supertype's name means is a type with that name. -/
theorem supertypeOf_mem {f : FileReading} (inFiles : f ∈ sortedFiles files)
    {resolved : List (Import × String)} {name target : String}
    (found : supertypeOf? (Sources.ofFiles files) ⟨f, f.symbols⟩ resolved name = some target) :
    target ∈ Names.sortedIds NodeKind.isSupertype (Sources.ofFiles files).symbols name := by
  have declared : ∀ {g : FileReading}, g ∈ sortedFiles files →
      Names.supertype? g.symbols name = some target →
      target ∈ Names.sortedIds NodeKind.isSupertype (Sources.ofFiles files).symbols name := by
    intro g inFiles means
    obtain ⟨n, member, rfl, isType, label⟩ := supertype_mem means
    rw [Sources.ofFiles_symbols plain]
    exact mem_sortedIds.mpr ⟨n, List.mem_flatMap.mpr ⟨g, inFiles, member⟩, rfl, isType, label⟩
  unfold supertypeOf? at found
  split at found
  · next own => exact declared inFiles (own.trans found)
  · split at found
    · next imported =>
      obtain ⟨path, -, means⟩ := Option.bind_eq_some_iff.mp (imported.trans found)
      by_cases present : path ∈ files.map FileReading.path
      · rw [← sortedFiles_paths] at present
        obtain ⟨g, inFiles', rfl⟩ := List.mem_map.mp present
        rw [Sources.symbolsOf_path plain inFiles'] at means
        exact declared inFiles' means
      · rw [Sources.symbolsOf_eq_nil plain present] at means
        cases means
    · exact List.mem_of_mem_head? found

/-- A name that does not mean a symbol in the symbol's own file does not mean it at all. -/
theorem supertypeOf_ne {f : FileReading} (inFiles : f ∈ sortedFiles files) {d : Declaration}
    (declared : d ∈ f.declarations) {resolved : List (Import × String)} {name target : String}
    (other : ¬ f.TypeIn name (f.symbol d).id)
    (found : supertypeOf? (Sources.ofFiles files) ⟨f, f.symbols⟩ resolved name = some target) :
    target ≠ (f.symbol d).id := by
  rintro rfl
  obtain ⟨n, member, same, isType, label⟩ := mem_sortedIds.mp (supertypeOf_mem plain inFiles found)
  rw [Sources.ofFiles_symbols plain] at member
  obtain ⟨g, inFiles', inSymbols⟩ := List.mem_flatMap.mp member
  obtain ⟨e, declared', rfl⟩ := List.mem_map.mp inSymbols
  have keys := (FileReading.symbol_id_inj (plain g (sortedFiles_subset inFiles'))
    (plain f (sortedFiles_subset inFiles)) declared' declared same).2
  obtain ⟨kinds, names⟩ : e.kind = d.kind ∧ e.name = d.name := Prod.mk.inj keys
  -- the symbol is a type with the name, so the name is found in its own file
  have isType' : d.kind.isSupertype = true := kinds ▸ isType
  obtain rfl : d.name = name := names ▸ label
  obtain ⟨id, means⟩ := exists_typeIn declared isType'
  have own : supertypeOf? (Sources.ofFiles files) ⟨f, f.symbols⟩ resolved d.name = some id := by
    rw [supertypeOf?, supertype_iff.mpr means]
  rw [own] at found
  obtain rfl := Option.some.inj found
  exact other means

/-- The types of two names have no ids in common. -/
theorem label_eq_of_mem {label label' id : String}
    (member : id ∈ Names.sortedIds NodeKind.isSupertype (Sources.ofFiles files).symbols label)
    (member' : id ∈ Names.sortedIds NodeKind.isSupertype (Sources.ofFiles files).symbols label') :
    label = label' := by
  obtain ⟨n, inSymbols, rfl, -, rfl⟩ := mem_sortedIds.mp member
  obtain ⟨m, inSymbols', same, -, rfl⟩ := mem_sortedIds.mp member'
  have nodup := Sources.symbols_nodup plain
  rw [← Sources.ofFiles_symbols plain] at nodup
  rw [List.inj_on_of_nodup_map nodup inSymbols' inSymbols same]

variable (owner name branch : String) (rule : CandidateRule)

/-- A type that a file declares is one of the graph. -/
theorem exists_type {f : FileReading} (inFiles : f ∈ sortedFiles files) {d : Declaration}
    (declared : d ∈ f.declarations) (isType : d.kind.isSupertype = true) :
    ∃ n ∈ (build owner name branch files rule).types d.name, n.id = (f.symbol d).id := by
  rw [← mem_types, Sources.ofFiles_symbols plain, mem_sortedIds]
  have inSymbols : f.symbol d ∈ f.symbols := List.mem_map_of_mem declared
  exact ⟨_, List.mem_flatMap.mpr ⟨f, inFiles, inSymbols⟩, rfl, isType, rfl⟩

/-- A symbol that its own file means by the name of its supertype is linked to no other type with
that name. -/
theorem not_linksType {f : FileReading} (inFiles : f ∈ sortedFiles files) {d : Declaration}
    (declared : d ∈ f.declarations) {kind : EdgeKind} {label : String} (names : d.Inherits kind label)
    (own : f.TypeIn label (f.symbol d).id) :
    ¬ (build owner name branch files rule).LinksType kind (f.symbol d).id label := by
  rintro ⟨e, member, rfl, source, -, n, isType, target, different⟩
  have inherits : e.kind = .extends ∨ e.kind = .implements := by
    rcases names with ⟨-, same⟩ | ⟨-, same⟩
    · exact .inl same
    · exact .inr same
  obtain ⟨g, inFiles', d', declared', source', -, label', -, found⟩ :=
    (drawn_of_mem plain member).inheritance inherits
  have paths := (FileReading.symbol_id_inj (plain g (sortedFiles_subset inFiles'))
    (plain f (sortedFiles_subset inFiles)) declared' declared (source'.symm.trans source)).1
  obtain rfl := sortedFiles_path_inj inFiles' inFiles paths
  have listed := (mem_types owner name branch files rule).mpr ⟨n, isType, target⟩
  obtain rfl := label_eq_of_mem plain listed (supertypeOf_mem plain inFiles found)
  have means : supertypeOf? (Sources.ofFiles files) ⟨g, g.symbols⟩
      (resolvedImports (Sources.ofFiles files) g) label = some (g.symbol d).id := by
    rw [supertypeOf?, supertype_iff.mpr own]
  rw [found] at means
  exact different (target.trans (Option.some.inj means))

end

/-- A symbol is linked to a type with the name of a supertype that it declares exactly if there is
one besides the symbol, and the name does not mean the symbol in its own file. -/
theorem build_supertypes (owner name branch : String) {files : List FileReading}
    (rule : CandidateRule) (genuine : ∀ f ∈ files, f.Genuine)
    (distinct : (files.map FileReading.path).Nodup)
    (free : ∀ f ∈ files, Arrowless f.path.toList) {f : FileReading} (inFiles : f ∈ files)
    {d : Declaration} (declared : d ∈ f.declarations) {kind : EdgeKind} {label : String}
    (names : d.Inherits kind label) :
    (build owner name branch files rule).LinksType kind (f.symbol d).id label ↔
      (∃ n ∈ (build owner name branch files rule).types label, n.id ≠ (f.symbol d).id) ∧
        ¬ f.TypeIn label (f.symbol d).id := by
  have plain : ∀ f ∈ files, f.Plain := fun f member => (genuine f member).plain
  have inSorted := (mem_sortedFiles distinct).mpr inFiles
  constructor
  · intro links
    refine ⟨?_, fun own => not_linksType plain owner name branch rule inSorted declared names own links⟩
    obtain ⟨e, -, -, -, -, n, isType, -, different⟩ := links
    exact ⟨n, isType, different⟩
  · rintro ⟨⟨n, isType, -⟩, other⟩
    obtain ⟨target, found⟩ := exists_supertypeOf ⟨f, f.symbols⟩
      (resolvedImports (Sources.ofFiles files) f)
      ((mem_types owner name branch files rule).mpr ⟨n, isType, rfl⟩)
    have different := supertypeOf_ne plain inSorted declared other found
    have drawn : Drawn files rule (Edge.make (f.symbol d).id target kind supertypeConfidence
      "supertype") := .supertype inSorted declared names found different
    obtain ⟨e, kept, kinds, sources, targets⟩ :=
      exists_edge_of_drawn plain free drawn (Ne.symm different)
    have inherits : e.kind = .extends ∨ e.kind = .implements := by
      rcases names with ⟨-, rfl⟩ | ⟨-, rfl⟩
      · exact .inl kinds
      · exact .inr kinds
    obtain ⟨-, -, -, -, -, certain, -⟩ := (drawn_of_mem plain kept).inheritance inherits
    obtain ⟨m, isType', same⟩ :=
      (mem_types owner name branch files rule).mp (supertypeOf_mem plain inSorted found)
    exact ⟨e, kept, kinds, sources, certain, m, isType', same.trans targets.symm,
      same ▸ different⟩

/-- A class that extends an imported one. -/
theorem build_supertypes_imported :
    let f : FileReading :=
      ⟨"a.py", .python, some (Source.parse "import base\nclass B(base.A):\n    pass\n" "a.py")⟩
    let g : FileReading :=
      ⟨"base.py", .python, some (Source.parse "class A:\n    pass\n" "base.py")⟩
    let d : Declaration := ⟨"B", .classType, 2, 3, ["A"], []⟩
    (∀ x ∈ [f, g], x.Genuine) ∧ ([f, g].map FileReading.path).Nodup ∧
      (∀ x ∈ [f, g], Arrowless x.path.toList) ∧ d ∈ f.declarations ∧ d.Inherits .extends "A" ∧
      (build "owner" "name" "main" [f, g] .firstMatch).LinksType .extends (f.symbol d).id "A" := by
  intro f g d
  have genuine : ∀ x ∈ [f, g], x.Genuine := by
    intro x member
    rcases List.mem_pair.mp member with rfl | rfl
    · exact FileReading.genuine_parse _ (by decide)
    · exact FileReading.genuine_parse _ (by decide)
  have plain : ∀ x ∈ [f, g], x.Plain := fun x member => (genuine x member).plain
  have distinct : ([f, g].map FileReading.path).Nodup := by decide
  have free : ∀ x ∈ [f, g], Arrowless x.path.toList := by
    unfold Arrowless
    decide
  have declared : d ∈ f.declarations := by decide +kernel
  have base : (⟨"A", .classType, 1, 2, [], []⟩ : Declaration) ∈ g.declarations := by decide +kernel
  have inherits : d.Inherits .extends "A" := .inl ⟨List.mem_singleton_self "A", rfl⟩
  refine ⟨genuine, distinct, free, declared, inherits, ?_⟩
  apply (build_supertypes "owner" "name" "main" .firstMatch genuine distinct free
    List.mem_cons_self declared inherits).mpr
  obtain ⟨n, isType, same⟩ := exists_type plain "owner" "name" "main" .firstMatch
    ((mem_sortedFiles distinct).mpr (by simp)) base rfl
  refine ⟨⟨n, isType, ?_⟩, ?_⟩
  · rw [same]
    decide
  · rw [typeIn_symbol (plain f List.mem_cons_self) declared]
    intro own
    exact absurd own.1 (by decide)

/-- A class that extends an imported one of its own name is not linked to it: its file means the
class itself by the name. -/
theorem not_linksType_ownName :
    let f : FileReading :=
      ⟨"a.py", .python, some (Source.parse "import base\nclass A(base.A):\n    pass\n" "a.py")⟩
    let g : FileReading :=
      ⟨"base.py", .python, some (Source.parse "class A:\n    pass\n" "base.py")⟩
    let d : Declaration := ⟨"A", .classType, 2, 3, ["A"], []⟩
    let graph := build "o" "r" "main" [f, g] .firstMatch
    (∀ x ∈ [f, g], x.Genuine) ∧ ([f, g].map FileReading.path).Nodup ∧
      (∀ x ∈ [f, g], Arrowless x.path.toList) ∧ d ∈ f.declarations ∧ d.Inherits .extends "A" ∧
      (∃ n ∈ graph.types "A", n.id ≠ (f.symbol d).id) ∧
      ¬ graph.LinksType .extends (f.symbol d).id "A" := by
  intro f g d graph
  have genuine : ∀ x ∈ [f, g], x.Genuine := by
    intro x member
    rcases List.mem_pair.mp member with rfl | rfl
    · exact FileReading.genuine_parse _ (by decide)
    · exact FileReading.genuine_parse _ (by decide)
  have plain : ∀ x ∈ [f, g], x.Plain := fun x member => (genuine x member).plain
  have distinct : ([f, g].map FileReading.path).Nodup := by decide
  have free : ∀ x ∈ [f, g], Arrowless x.path.toList := by
    unfold Arrowless
    decide
  have declared : d ∈ f.declarations := by decide +kernel
  have base : (⟨"A", .classType, 1, 2, [], []⟩ : Declaration) ∈ g.declarations := by decide +kernel
  have inherits : d.Inherits .extends "A" := .inl ⟨List.mem_singleton_self "A", rfl⟩
  refine ⟨genuine, distinct, free, declared, inherits, ?_, ?_⟩
  · obtain ⟨n, isType, same⟩ := exists_type plain "o" "r" "main" .firstMatch
      ((mem_sortedFiles distinct).mpr (by simp)) base rfl
    refine ⟨n, isType, ?_⟩
    rw [same]
    decide
  · apply not_linksType plain "o" "r" "main" .firstMatch
      ((mem_sortedFiles distinct).mpr List.mem_cons_self) declared inherits
    exact (typeIn_symbol (plain f List.mem_cons_self) declared).mpr ⟨rfl, .inl rfl⟩

end Assembly

end CodeAtlas
