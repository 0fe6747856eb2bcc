import CodeAtlas.Assembly.Basic
import CodeAtlas.Proofs.Graph.Identity
import CodeAtlas.Proofs.Text.Order

/-!
# The files of a repository and their symbols

Files are taken in strict order of their paths, and of several files at one path one is left. As
outlines are plain, all symbols that the files declare have ids of their own: none is left out, and
the symbols of a file are exactly what it declares.
-/

namespace CodeAtlas

namespace FileReading

/-- Read off some text under its path, or without a text. -/
def Genuine (f : FileReading) : Prop :=
  (∃ content, FileReading.ofSource? f.path content = some f) ∨ f.outline = none

theorem genuine_parse {path : String} {language : Language} (content : String)
    (known : Language.ofPath? path = some language) :
    Genuine ⟨path, language, some (Source.parse content path)⟩ :=
  .inl ⟨content, by rw [ofSource?, known]; rfl⟩

/-- Whatever is known of the file comes from a plain outline. -/
def Plain (f : FileReading) : Prop :=
  ∀ o, f.outline = some o → o.Plain

/-- A file that was read off a text is plain, and so is one without. -/
theorem Genuine.plain {f : FileReading} (genuine : f.Genuine) : f.Plain := by
  intro o known
  rcases genuine with ⟨content, source⟩ | unread
  · obtain ⟨language, -, made⟩ := Option.map_eq_some_iff.mp source
    have outline := congrArg FileReading.outline made
    obtain rfl : Source.parse content f.path = o := by simpa [known] using outline
    exact Source.parse_plain content f.path
  · simp [unread] at known

theorem Plain.declaration {f : FileReading} (plain : f.Plain) {d : Declaration}
    (member : d ∈ f.declarations) : d.Plain := by
  cases known : f.outline with
  | none => simp [declarations, known] at member
  | some o => exact (plain o known).declarations d (by simpa [declarations, known] using member)

/-- No two declarations of a plain file have kind and name in common. -/
theorem Plain.keys {f : FileReading} (plain : f.Plain) :
    (f.declarations.map Declaration.key).Nodup := by
  cases known : f.outline with
  | none => simp [declarations, known]
  | some o => simpa [declarations, known] using (plain o known).keys

/-- The nodes of the symbols that a file declares. -/
def symbols (f : FileReading) : List Node :=
  f.declarations.map f.symbol

@[simp] theorem symbol_id (f : FileReading) (d : Declaration) :
    (f.symbol d).id = Node.idOfSymbol d.kind f.path d.name := rfl

@[simp] theorem symbol_kind (f : FileReading) (d : Declaration) : (f.symbol d).kind = d.kind := rfl

@[simp] theorem symbol_label (f : FileReading) (d : Declaration) :
    (f.symbol d).label = d.name := rfl

@[simp] theorem symbol_filePath (f : FileReading) (d : Declaration) :
    (f.symbol d).filePath = f.path := rfl

@[simp] theorem symbol_lineStart (f : FileReading) (d : Declaration) :
    (f.symbol d).lineStart = some d.lineStart := rfl

@[simp] theorem node_id (f : FileReading) : f.node.id = f.id := rfl

@[simp] theorem node_kind (f : FileReading) : f.node.kind = .file := rfl

@[simp] theorem node_filePath (f : FileReading) : f.node.filePath = f.path := rfl

/-- The symbols of plain files at different paths have different ids. -/
theorem symbol_id_inj {f g : FileReading} (plainF : f.Plain) (plainG : g.Plain)
    {d e : Declaration} (inF : d ∈ f.declarations) (inG : e ∈ g.declarations)
    (h : (f.symbol d).id = (g.symbol e).id) : f.path = g.path ∧ d.key = e.key := by
  obtain ⟨kinds, paths, names⟩ :=
    Node.idOfSymbol_inj (plainF.declaration inF).name (plainG.declaration inG).name h
  exact ⟨paths, Prod.ext kinds names⟩

theorem nodup_symbols {f : FileReading} (plain : f.Plain) : (f.symbols.map Node.id).Nodup := by
  rw [symbols, List.map_map]
  apply List.Nodup.map_on _ (plain.keys.of_map _)
  intro d inF e inF' same
  exact List.inj_on_of_nodup_map plain.keys inF inF'
    (symbol_id_inj plain plain inF inF' same).2

end FileReading

namespace Assembly

/-! ### Files in order -/

section Order

variable {files : List FileReading}

theorem dropRepeated_sublist (files : List FileReading) : (dropRepeated files).Sublist files := by
  fun_induction dropRepeated files with
  | case1 => exact List.Sublist.refl _
  | case2 f => exact List.Sublist.refl _
  | case3 f g rest _ ih => exact ih.trans ((List.sublist_cons_self g rest).cons_cons f)
  | case4 f g rest _ ih => exact ih.cons_cons f

theorem dropRepeated_paths (files : List FileReading) (path : String) :
    path ∈ (dropRepeated files).map FileReading.path ↔ path ∈ files.map FileReading.path := by
  fun_induction dropRepeated files with
  | case1 => rfl
  | case2 f => rfl
  | case3 f g rest same ih =>
    rw [ih]
    simp [same]
  | case4 f g rest _ ih =>
    rw [List.map_cons, List.mem_cons, ih]
    simp

theorem dropRepeated_strict (files : List FileReading)
    (ordered : files.Pairwise fun f g => f.path ≤ g.path) :
    (dropRepeated files).Pairwise fun f g => f.path < g.path := by
  fun_induction dropRepeated files with
  | case1 => exact List.Pairwise.nil
  | case2 f => exact List.pairwise_singleton _ f
  | case3 f g rest _ ih =>
    exact ih (ordered.sublist ((List.sublist_cons_self g rest).cons_cons f))
  | case4 f g rest different ih =>
    obtain ⟨first, others⟩ := List.pairwise_cons.mp ordered
    refine List.pairwise_cons.mpr ⟨?_, ih others⟩
    intro h member
    have fg : f.path < g.path :=
      String.not_le.mp fun gf => different (String.le_antisymm (first g List.mem_cons_self) gf)
    have gh : g.path ≤ h.path := by
      rcases List.mem_cons.mp ((dropRepeated_sublist _).subset member) with rfl | later
      · exact String.le_refl _
      · exact (List.pairwise_cons.mp others).1 h later
    exact String.not_le.mp fun hf => String.not_le.mpr fg (String.le_trans gh hf)

theorem sortedFiles_strict (files : List FileReading) :
    (sortedFiles files).Pairwise fun f g => f.path < g.path := by
  apply dropRepeated_strict
  exact Text.mergeSort_ordered FileReading.path files

theorem sortedFiles_subset {f : FileReading} (member : f ∈ sortedFiles files) : f ∈ files :=
  List.mem_mergeSort.mp ((dropRepeated_sublist _).subset member)

theorem sortedFiles_paths (path : String) :
    path ∈ (sortedFiles files).map FileReading.path ↔ path ∈ files.map FileReading.path := by
  rw [sortedFiles, dropRepeated_paths]
  simp

theorem sortedFiles_nodup (files : List FileReading) :
    ((sortedFiles files).map FileReading.path).Nodup := by
  rw [List.Nodup, List.pairwise_map]
  refine (sortedFiles_strict files).imp ?_
  intro f g less same
  rw [same] at less
  exact String.lt_irrefl _ less

/-- Two files that are taken are the same if their paths are. -/
theorem sortedFiles_path_inj {f g : FileReading} (inF : f ∈ sortedFiles files)
    (inG : g ∈ sortedFiles files) (same : f.path = g.path) : f = g :=
  List.inj_on_of_nodup_map (sortedFiles_nodup files) inF inG same

theorem dropRepeated_of_strict (strict : files.Pairwise fun f g => f.path < g.path) :
    dropRepeated files = files := by
  fun_induction dropRepeated files with
  | case1 => rfl
  | case2 f => rfl
  | case3 f g rest same _ =>
    have less := (List.pairwise_cons.mp strict).1 g List.mem_cons_self
    rw [same] at less
    exact absurd less (String.lt_irrefl _)
  | case4 f g rest _ ih => rw [ih (List.pairwise_cons.mp strict).2]

/-- Files in strict order of their paths are taken as they are. -/
theorem sortedFiles_of_strict (strict : files.Pairwise fun f g => f.path < g.path) :
    sortedFiles files = files := by
  have ordered : files.Pairwise fun f g => decide (f.path ≤ g.path) = true := by
    refine strict.imp ?_
    intro f g less
    exact decide_eq_true (String.not_lt.mp (String.lt_asymm less))
  rw [sortedFiles, List.mergeSort_of_pairwise ordered, dropRepeated_of_strict strict]

theorem mem_sortedFiles (distinct : (files.map FileReading.path).Nodup) {f : FileReading} :
    f ∈ sortedFiles files ↔ f ∈ files := by
  refine ⟨sortedFiles_subset, fun member => ?_⟩
  obtain ⟨g, taken, same⟩ :=
    List.mem_map.mp ((sortedFiles_paths f.path).mpr (List.mem_map_of_mem member))
  rwa [List.inj_on_of_nodup_map distinct member (sortedFiles_subset taken) same.symm]

end Order

/-! ### Symbols -/

theorem newNodes_eq {nodes : List Node} {seen : Std.HashSet String}
    (distinct : (nodes.map Node.id).Nodup) (fresh : ∀ n ∈ nodes, seen.contains n.id = false) :
    (newNodes seen nodes).1 = nodes ∧
      ∀ id, (newNodes seen nodes).2.contains id = true ↔
        seen.contains id = true ∨ id ∈ nodes.map Node.id := by
  induction nodes generalizing seen with
  | nil => simp [newNodes]
  | cons n rest ih =>
    obtain ⟨notLater, distinct⟩ := List.nodup_cons.mp distinct
    have freshRest : ∀ m ∈ rest, (seen.insert n.id).contains m.id = false := by
      intro m member
      have different : n.id ≠ m.id := fun same => notLater (same ▸ List.mem_map_of_mem member)
      simp [different, fresh m (List.mem_cons_of_mem n member)]
    obtain ⟨kept, contained⟩ := ih distinct freshRest
    simp only [newNodes, fresh n List.mem_cons_self, Bool.false_eq_true, if_false]
    refine ⟨by rw [kept], fun id => ?_⟩
    rw [contained id]
    simp only [Std.HashSet.contains_insert, Bool.or_eq_true, beq_iff_eq, List.map_cons,
      List.mem_cons]
    grind

/-- Files whose symbols have new and different ids keep all of them. -/
theorem declareAll_eq {files : List FileReading} {seen : Std.HashSet String}
    (distinct : ((files.flatMap FileReading.symbols).map Node.id).Nodup)
    (fresh : ∀ n ∈ files.flatMap FileReading.symbols, seen.contains n.id = false) :
    declareAll seen files = files.map fun f => ⟨f, f.symbols⟩ := by
  induction files generalizing seen with
  | nil => rfl
  | cons f rest ih =>
    rw [List.flatMap_cons, List.map_append, List.nodup_append] at distinct
    obtain ⟨own, later, apart⟩ := distinct
    obtain ⟨kept, contained⟩ := newNodes_eq own fun n member =>
      fresh n (List.mem_append_left _ member)
    have freshRest : ∀ n ∈ rest.flatMap FileReading.symbols,
        (newNodes seen f.symbols).2.contains n.id = false := by
      intro n member
      rw [Bool.eq_false_iff, ne_eq, contained n.id]
      rintro (old | earlier)
      · simp [fresh n (List.mem_append_right _ member)] at old
      · exact apart _ earlier _ (List.mem_map_of_mem member) rfl
    have rest_eq := ih later freshRest
    simp only [FileReading.symbols] at kept rest_eq
    simp [declareAll, kept, rest_eq, FileReading.symbols]

namespace Sources

section

variable {files : List FileReading} (plain : ∀ f ∈ files, f.Plain)

include plain

/-- All symbols of plain files at different paths have different ids. -/
theorem symbols_nodup :
    (((sortedFiles files).flatMap FileReading.symbols).map Node.id).Nodup := by
  rw [List.map_flatMap, List.nodup_flatMap]
  refine ⟨fun f member => FileReading.nodup_symbols (plain f (sortedFiles_subset member)), ?_⟩
  refine (sortedFiles_strict files).imp_of_mem ?_
  intro f g inF inG less id ofF ofG
  obtain ⟨n, inSymbols, rfl⟩ := List.mem_map.mp ofF
  obtain ⟨d, declared, rfl⟩ := List.mem_map.mp inSymbols
  obtain ⟨m, inSymbols', same⟩ := List.mem_map.mp ofG
  obtain ⟨e, declared', rfl⟩ := List.mem_map.mp inSymbols'
  have paths := (FileReading.symbol_id_inj (plain g (sortedFiles_subset inG))
    (plain f (sortedFiles_subset inF)) declared' declared same).1
  exact String.lt_irrefl _ (paths ▸ less)

/-- The files of a repository come with all symbols that they declare. -/
theorem ofFiles_files :
    (ofFiles files).files = (sortedFiles files).map fun f => ⟨f, f.symbols⟩ := by
  apply declareAll_eq (symbols_nodup plain)
  intro n member
  obtain ⟨f, inFiles, inSymbols⟩ := List.mem_flatMap.mp member
  obtain ⟨d, declared, rfl⟩ := List.mem_map.mp inSymbols
  have symbol := ((plain f (sortedFiles_subset inFiles)).declaration declared).kind
  rw [Std.HashSet.contains_ofList, Bool.eq_false_iff, ne_eq, List.contains_iff_mem]
  intro taken
  obtain ⟨g, -, same⟩ := List.mem_map.mp taken
  exact Node.idOfSymbol_ne_idOfFile symbol f.path d.name g.path same.symm

/-- The symbols of a repository are those that its files declare. -/
theorem ofFiles_symbols :
    (ofFiles files).symbols = (sortedFiles files).flatMap FileReading.symbols := by
  have files_eq := ofFiles_files plain
  simp only [ofFiles] at files_eq ⊢
  rw [files_eq, List.flatMap_map]

/-- The symbols of the file at a path are those that it declares. -/
theorem symbolsOf_path {f : FileReading} (member : f ∈ sortedFiles files) :
    (ofFiles files).symbolsOf f.path = f.symbols := by
  rw [symbolsOf, ofFiles_files plain, List.find?_map]
  have found : (sortedFiles files).find?
      ((fun d : Declared => d.file.path == f.path) ∘ fun f => ⟨f, f.symbols⟩) = some f := by
    cases h : (sortedFiles files).find?
        ((fun d : Declared => d.file.path == f.path) ∘ fun f => ⟨f, f.symbols⟩) with
    | none => simpa using List.find?_eq_none.mp h f member
    | some g =>
      have same : g.path = f.path := by simpa using List.find?_some h
      rw [sortedFiles_path_inj (List.mem_of_find?_eq_some h) member same]
  rw [found]
  rfl

theorem symbolsOf_eq_nil {path : String} (absent : path ∉ files.map FileReading.path) :
    (ofFiles files).symbolsOf path = [] := by
  rw [symbolsOf, ofFiles_files plain, List.find?_map]
  have nowhere : (sortedFiles files).find?
      ((fun d : Declared => d.file.path == path) ∘ fun f => ⟨f, f.symbols⟩) = none := by
    rw [List.find?_eq_none]
    rintro f member same
    apply absent
    rw [← sortedFiles_paths]
    exact List.mem_map.mpr ⟨f, member, by simpa using same⟩
  rw [nowhere]
  rfl

end

/-- A path is present if it is the path of a file. -/
theorem contains_paths (files : List FileReading) (path : String) :
    (ofFiles files).paths.contains path = true ↔ path ∈ files.map FileReading.path := by
  rw [ofFiles, Std.HashSet.contains_ofList, List.contains_iff_mem, sortedFiles_paths]

theorem contains_eq (files : List FileReading) :
    (ofFiles files).paths.contains = fun path => decide (path ∈ files.map FileReading.path) := by
  funext path
  rw [Bool.eq_iff_iff, contains_paths, decide_eq_true_iff]

end Sources

end Assembly

end CodeAtlas
