import CodeAtlas.Proofs.Assembly.Calls
import CodeAtlas.Proofs.Assembly.Unread
import CodeAtlas.Proofs.Source.Nesting

/-!
# Calls come from the innermost function

A call is attributed to the function that starts last among those around it. The declarations of a
Python file are nested, so of the functions around one line each lies within those that start before
it: the last one is the innermost.
-/

namespace CodeAtlas

/-- The lines that a node spans. -/
def Node.lines (n : Node) : Set Nat :=
  {line | n.spans line = true}

@[simp] theorem Node.mem_lines {n : Node} {line : Nat} : line ∈ n.lines ↔ n.spans line = true :=
  Iff.rfl

namespace RepoGraph

/-- A node is around a line of a file and lies within every function of that file around the
line. -/
structure Innermost (g : RepoGraph) (path : String) (line : Nat) (n : Node) : Prop where
  filePath : n.filePath = path
  around : line ∈ n.lines
  within : ∀ m ∈ g.nodes, m.kind = .function → m.filePath = path → line ∈ m.lines →
    n.lines ⊆ m.lines

/-- The calls on a line of a file are told to come from a node of that file: from the innermost
function around the line, or else, where no function is around it, from no function. -/
structure Attributed (g : RepoGraph) (path : String) (line : Nat) (caller : String) : Prop where
  node : ∃ n ∈ g.nodes, n.id = caller ∧ n.filePath = path
  innermost : ∀ n ∈ g.nodes, n.id = caller → n.kind = .function → g.Innermost path line n
  outside : ∀ n ∈ g.nodes, n.id = caller → n.kind ≠ .function →
    ∀ m ∈ g.nodes, m.kind = .function → m.filePath = path → line ∉ m.lines

end RepoGraph

namespace FileReading

variable {f : FileReading} {d e : Declaration} {line : Nat}

theorem mem_around {n : Node} :
    n ∈ f.around line ↔ n ∈ f.symbols ∧ n.kind = .function ∧ line ∈ n.lines := by
  simp [around]

/-- If there are functions around a line, the caller is one that starts last of them. -/
theorem Caller.latest {caller : String} (isCaller : f.Caller line caller) :
    f.around line = [] ∧ caller = f.id ∨
      ∃ d ∈ f.declarations, caller = (f.symbol d).id ∧ f.symbol d ∈ f.around line ∧
        ∀ e, f.symbol e ∈ f.around line → e.lineStart ≤ d.lineStart := by
  cases isCaller with
  | file empty => exact .inl ⟨empty, rfl⟩
  | @function before after last split early late =>
    have inAround : last ∈ f.around line := by simp [split]
    obtain ⟨d, declared, rfl⟩ := List.mem_map.mp (mem_around.mp inAround).1
    refine .inr ⟨d, declared, rfl, inAround, ?_⟩
    intro e other
    rw [split, List.mem_append, List.mem_cons] at other
    rcases other with inBefore | same | inAfter
    · exact early _ inBefore
    · exact (congrArg Node.start same).le
    · exact (late _ inAfter).le

theorem Genuine.parsed (genuine : f.Genuine) (member : d ∈ f.declarations) :
    ∃ content, Language.ofPath? f.path = some f.language ∧
      f.declarations = (Source.parse content f.path).declarations := by
  rcases genuine with ⟨content, source⟩ | unread
  · obtain ⟨language, known, made⟩ := Option.map_eq_some_iff.mp source
    have languages : language = f.language := congrArg FileReading.language made
    have outline : some (Source.parse content f.path) = f.outline :=
      congrArg FileReading.outline made
    refine ⟨content, languages ▸ known, ?_⟩
    rw [declarations, ← outline]
    rfl
  · simp [declarations, unread] at member

section Python

variable (genuine : f.Genuine) (python : f.language = .python)

include genuine python

/-- The node of a Python declaration spans the lines of the declaration. -/
theorem symbol_lines (member : d ∈ f.declarations) : (f.symbol d).lines = d.lines := by
  obtain ⟨content, known, declared⟩ := genuine.parsed member
  rw [python] at known
  rw [declared] at member
  have ends : max d.lineEnd d.lineStart = d.lineEnd :=
    Nat.max_eq_left (Source.start_le_of_python known member)
  ext line
  rw [Node.mem_lines, symbol, Node.spans_ofSymbol, ends, Declaration.lines, Set.mem_Icc]

/-- Of two symbols around a line of a Python file, the one that starts later lies within the
other. -/
theorem symbol_within (member : d ∈ f.declarations) (member' : e ∈ f.declarations)
    (early : d.lineStart ≤ e.lineStart) (around : line ∈ (f.symbol d).lines)
    (around' : line ∈ (f.symbol e).lines) : (f.symbol e).lines ⊆ (f.symbol d).lines := by
  rw [symbol_lines genuine python member] at around ⊢
  rw [symbol_lines genuine python member'] at around' ⊢
  obtain ⟨content, known, declared⟩ := genuine.parsed member
  rw [python] at known
  rw [declared] at member member'
  rcases Source.within_of_python known member member' early with apart | within
  · exact absurd around' (Set.disjoint_left.mp apart around)
  · exact within

end Python

end FileReading

namespace Assembly

section

variable {files : List FileReading} (plain : ∀ f ∈ files, f.Plain)
  (owner name branch : String) (rule : CandidateRule)

include plain

/-- The functions of a graph are declared in its files. -/
theorem exists_declared {n : Node} (member : n ∈ (build owner name branch files rule).nodes)
    (function : n.kind = .function) : ∃ f ∈ sortedFiles files, ∃ d ∈ f.declarations,
      d.kind = .function ∧ n.id = (f.symbol d).id ∧ n.filePath = f.path ∧
        n.lines = (f.symbol d).lines := by
  have symbol : n ∈ (build owner name branch files rule).symbols := by
    rw [RepoGraph.symbols, List.mem_filter]
    exact ⟨member, by simp [Node.isFile, function]⟩
  have declared := List.mem_map_of_mem (f := Node.placeless) symbol
  rw [build_symbols plain] at declared
  obtain ⟨f, inFiles, inSymbols⟩ := List.mem_flatMap.mp declared
  obtain ⟨d, inFile, same⟩ := List.mem_map.mp inSymbols
  have kind : d.kind = n.kind := congrArg Node.kind same
  exact ⟨f, inFiles, d, inFile, kind.trans function, (congrArg Node.id same).symm,
    (congrArg Node.filePath same).symm, (congrArg Node.lines same).symm⟩

/-- The functions in a file of a graph that are around a line are those of the file around it. -/
theorem exists_around {f : FileReading} (inFiles : f ∈ sortedFiles files) {line : Nat} {n : Node}
    (member : n ∈ (build owner name branch files rule).nodes) (function : n.kind = .function)
    (path : n.filePath = f.path) (around : line ∈ n.lines) :
    ∃ d ∈ f.declarations, f.symbol d ∈ f.around line ∧ n.lines = (f.symbol d).lines := by
  obtain ⟨g, inFiles', d, declared, kind, -, paths, lines⟩ :=
    exists_declared plain owner name branch rule member function
  obtain rfl := sortedFiles_path_inj inFiles' inFiles (paths.symm.trans path)
  refine ⟨d, declared, ?_, lines⟩
  rw [lines] at around
  exact FileReading.mem_around.mpr ⟨List.mem_map_of_mem declared, kind, around⟩

/-- A node with the id of a file stands for no function. -/
theorem kind_of_file_id {f : FileReading} {n : Node}
    (member : n ∈ (build owner name branch files rule).nodes) (same : n.id = f.id) :
    n.kind ≠ .function := by
  intro function
  obtain ⟨g, -, d, -, kind, ids, -⟩ :=
    exists_declared plain owner name branch rule member function
  have symbol : d.kind ≠ .file := by simp [kind]
  exact Node.idOfSymbol_ne_idOfFile symbol g.path d.name f.path (ids.symm.trans same)

/-- A node with the id of a symbol is its node, communities apart. -/
theorem placeless_of_id {f : FileReading} (inFiles : f ∈ sortedFiles files) {d : Declaration}
    (declared : d ∈ f.declarations) {n : Node}
    (member : n ∈ (build owner name branch files rule).nodes) (same : n.id = (f.symbol d).id) :
    n.placeless = f.symbol d := by
  have known : f.symbol d ∈ (sortedFiles files).flatMap FileReading.symbols :=
    List.mem_flatMap.mpr ⟨f, inFiles, List.mem_map_of_mem declared⟩
  rw [← build_symbols plain owner name branch] at known
  obtain ⟨m, inSymbols, alike⟩ := List.mem_map.mp known
  have ids : n.id = m.id := same.trans (congrArg Node.id alike).symm
  rwa [node_unique plain owner name branch rule member (List.mem_filter.mp inSymbols).1 ids]

/-- Who calls in a file is a node of it. -/
theorem exists_caller {f : FileReading} (inFiles : f ∈ sortedFiles files) (line : Nat) :
    ∃ n ∈ (build owner name branch files rule).nodes,
      n.id = callerOf ⟨f, f.symbols⟩ line ∧ n.filePath = f.path := by
  rcases callerOf_id f line with file | ⟨d, declared, symbol⟩
  · obtain ⟨n, member, ids, -, path⟩ := exists_fileNode plain owner name branch rule inFiles
    exact ⟨n, member, ids.trans file.symm, path⟩
  · obtain ⟨n, member, ids, -, path⟩ := exists_symbolNode plain owner name branch rule inFiles
      (List.mem_map_of_mem declared)
    exact ⟨n, member, ids.trans symbol.symm, path⟩

/-- The edges of a graph that stand for calls come from the callers of the calls in its files. -/
theorem exists_call {e : Edge} (member : e ∈ (build owner name branch files rule).edges)
    (call : e.kind = .calls) : ∃ f ∈ sortedFiles files, ∃ c ∈ f.calls,
      e.source = callerOf ⟨f, f.symbols⟩ c.line := by
  cases drawn_of_mem plain member with
  | @call f c target tier inFiles called means => exact ⟨f, inFiles, c, called, rfl⟩
  | declaration | imported => cases call
  | supertype _ _ listed =>
    rcases listed with ⟨-, rfl⟩ | ⟨-, rfl⟩ <;> cases call

section Python

variable (genuine : ∀ f ∈ files, f.Genuine) {f : FileReading} (inFiles : f ∈ sortedFiles files)
  (python : f.language = .python) {line : Nat}

include genuine inFiles python

/-- The function that starts last of those around a line of a Python file is the innermost one. -/
theorem innermost_of_latest {d : Declaration} (declared : d ∈ f.declarations)
    (inAround : f.symbol d ∈ f.around line)
    (latest : ∀ e, f.symbol e ∈ f.around line → e.lineStart ≤ d.lineStart) {n : Node}
    (alike : n.placeless = f.symbol d) :
    (build owner name branch files rule).Innermost f.path line n := by
  have ofFile : f.Genuine := genuine f (sortedFiles_subset inFiles)
  have around : line ∈ (f.symbol d).lines := (FileReading.mem_around.mp inAround).2.2
  have lines : n.lines = (f.symbol d).lines := by
    rw [← alike]
    rfl
  constructor
  case filePath => exact congrArg Node.filePath alike
  case around => rwa [lines]
  case within =>
    intro m member function path around'
    obtain ⟨e, declared', inAround', lines'⟩ :=
      exists_around plain owner name branch rule inFiles member function path around'
    rw [lines'] at around' ⊢
    rw [lines]
    exact FileReading.symbol_within ofFile python declared' declared (latest e inAround') around'
      around

/-- Who calls on a line of a Python file is the innermost function around it, if there is one. -/
theorem attributed_python : (build owner name branch files rule).Attributed f.path line
    (callerOf ⟨f, f.symbols⟩ line) := by
  have node := exists_caller plain owner name branch rule inFiles line
  have isCaller := callerOf_iff.mp (rfl : callerOf ⟨f, f.symbols⟩ line = _)
  rcases isCaller.latest with ⟨empty, file⟩ | ⟨d, declared, symbol, inAround, latest⟩
  · rw [file] at node ⊢
    refine ⟨node, ?_, ?_⟩
    · intro n member same function
      exact absurd function (kind_of_file_id plain owner name branch rule member same)
    · intro n _ _ _ m member function path around
      obtain ⟨d, -, inAround, -⟩ :=
        exists_around plain owner name branch rule inFiles member function path around
      rw [empty] at inAround
      cases inAround
  · rw [symbol] at node ⊢
    refine ⟨node, ?_, ?_⟩
    · intro n member same _
      exact innermost_of_latest plain owner name branch rule genuine inFiles python declared
        inAround latest (placeless_of_id plain owner name branch rule inFiles declared member same)
    · intro n member same other
      have alike := placeless_of_id plain owner name branch rule inFiles declared member same
      have function := (FileReading.mem_around.mp inAround).2.1
      exact absurd ((congrArg Node.kind alike).trans function) other

end Python

end

/-- Python scopes nest, and so the calls in Python files are attributed to the innermost function
around them; the edges of calls come from whom the calls are attributed to. -/
theorem build_innermost :
    (∀ content path, Language.ofPath? path = some .python →
      Declaration.Laminar (Source.parse content path).declarations) ∧
    ∀ (owner name branch : String) (files : List FileReading) (rule : CandidateRule),
      (∀ f ∈ files, f.Genuine) →
      (∀ d ∈ (Sources.ofFiles files).files, d.file.language = .python → ∀ c ∈ d.file.calls,
        (build owner name branch files rule).Attributed d.file.path c.line
          (callerOf d c.line)) ∧
      ∀ e ∈ (build owner name branch files rule).edges, e.kind = .calls →
        ∃ d ∈ (Sources.ofFiles files).files, ∃ c ∈ d.file.calls,
          e.source = callerOf d c.line := by
  refine ⟨fun content path python => Source.parse_laminar python, ?_⟩
  intro owner name branch files rule genuine
  have plain : ∀ f ∈ files, f.Plain := fun f member => (genuine f member).plain
  rw [Sources.ofFiles_files plain]
  refine ⟨?_, ?_⟩
  · intro d inFiles python c _
    obtain ⟨f, taken, rfl⟩ := List.mem_map.mp inFiles
    exact attributed_python plain owner name branch rule genuine taken python
  · intro e member call
    obtain ⟨f, taken, c, called, source⟩ :=
      exists_call plain owner name branch rule member call
    exact ⟨_, List.mem_map_of_mem taken, c, called, source⟩

/-- A call in a function within a function. -/
theorem build_innermost_closure :
    let f : FileReading :=
      ⟨"a.py", .python, some (Source.parse "def f():\n  def g():\n    h()\n  g()\n" "a.py")⟩
    Language.ofPath? "a.py" = some .python ∧ Declaration.Laminar f.declarations ∧
      (∀ x ∈ [f], x.Genuine) ∧
      (build "owner" "name" "main" [f] .splitAll).Attributed "a.py" 3 "function:a.py::g" := by
  intro f
  have known : Language.ofPath? "a.py" = some .python := by decide
  have genuine : ∀ x ∈ [f], x.Genuine := by
    intro x member
    obtain rfl := List.mem_singleton.mp member
    exact FileReading.genuine_parse _ known
  have plain : ∀ x ∈ [f], x.Plain := fun x member => (genuine x member).plain
  have present : (⟨f, f.symbols⟩ : Declared) ∈ (Sources.ofFiles [f]).files := by
    rw [Sources.ofFiles_files plain, sortedFiles_of_strict (List.pairwise_singleton _ f)]
    exact List.mem_singleton_self _
  have called : (⟨"h", 3⟩ : Call) ∈ f.calls := by decide +kernel
  have caller : callerOf ⟨f, f.symbols⟩ 3 = "function:a.py::g" := by decide +kernel
  refine ⟨known, build_innermost.1 _ "a.py" known, genuine, ?_⟩
  rw [← caller]
  exact (build_innermost.2 "owner" "name" "main" [f] .splitAll genuine).1 _ present rfl _ called

end Assembly

end CodeAtlas
