import CodeAtlas.Proofs.Assembly.Integrity
import Mathlib.Data.List.Induction

/-!
# Who calls, and what a called name can mean

The looked-up answers are told apart from how they are looked up: which function a line lies in, from
which file a name is imported, what a file declares under a name, and which symbols of a whole graph
have it.
-/

namespace CodeAtlas

/-- The line on which a node starts. -/
def Node.start (n : Node) : Nat :=
  n.lineStart.getD 0

/-- The symbols with a name that can be called. -/
def RepoGraph.callables (g : RepoGraph) (name : String) : List Node :=
  g.nodes.filter fun n => n.kind.isCallable && n.label == name

namespace FileReading

/-- The functions of a file around a line. -/
def around (f : FileReading) (line : Nat) : List Node :=
  f.symbols.filter fun n => n.kind == .function && n.spans line

/-- Who calls on a line: of the functions around it the one that starts last, the later one of two
that start together; the file if there is none. -/
inductive Caller (f : FileReading) (line : Nat) : String → Prop where
  | file : f.around line = [] → Caller f line f.id
  | function {before after : List Node} {n : Node} : f.around line = before ++ n :: after →
      (∀ m ∈ before, m.start ≤ n.start) → (∀ m ∈ after, m.start < n.start) → Caller f line n.id

/-- An import means the file at a path, which is not the importing one. -/
def Means (f : FileReading) (files : List FileReading) (i : Import) (path : String) : Prop :=
  Source.importedFile? (fun p => decide (p ∈ files.map FileReading.path)) f.path i.moduleName =
    some path ∧ path ≠ f.path

/-- The last import that means another file and binds a name means the file at a path. -/
def ImportedFrom (f : FileReading) (files : List FileReading) (name path : String) : Prop :=
  ∃ before i after, f.imports = before ++ i :: after ∧ name ∈ i.names ∧ f.Means files i path ∧
    ∀ j ∈ after, name ∈ j.names → ∀ other, ¬ f.Means files j other

/-- A file declares a symbol of a kind and a name. -/
def Declares (f : FileReading) (kind : NodeKind) (name : String) : Prop :=
  ∃ d ∈ f.declarations, d.kind = kind ∧ d.name = name

/-- What can be called in a file under a name: the function, else the class. -/
inductive CallableIn (f : FileReading) (name : String) : String → Prop where
  | function : f.Declares .function name → CallableIn f name (Node.idOfSymbol .function f.path name)
  | classType : ¬ f.Declares .function name → f.Declares .classType name →
      CallableIn f name (Node.idOfSymbol .classType f.path name)

end FileReading

namespace Assembly

/-! ### Callers -/

theorem foldl_laterStart_none {nodes : List Node} (h : nodes.foldl laterStart none = none) :
    nodes = [] := by
  rcases List.eq_nil_or_concat nodes with rfl | ⟨rest, last, rfl⟩
  · rfl
  · rw [List.concat_eq_append, List.foldl_append, List.foldl_cons, List.foldl_nil] at h
    unfold laterStart at h
    split at h
    · cases h
    · split at h <;> cases h

/-- The node that is found starts last, and it is the later one of two that start together. -/
theorem foldl_laterStart {nodes : List Node} {n : Node}
    (found : nodes.foldl laterStart none = some n) :
    ∃ before after, nodes = before ++ n :: after ∧ (∀ m ∈ before, m.start ≤ n.start) ∧
      ∀ m ∈ after, m.start < n.start := by
  induction nodes using List.reverseRecOn generalizing n with
  | nil => cases found
  | append_singleton rest last ih =>
    rw [List.foldl_append, List.foldl_cons, List.foldl_nil] at found
    cases best : rest.foldl laterStart none with
    | none =>
      rw [best] at found
      obtain rfl := Option.some.inj found
      rw [foldl_laterStart_none best]
      exact ⟨[], [], rfl, by simp, by simp⟩
    | some b =>
      obtain ⟨before, after, rfl, early, late⟩ := ih best
      rw [best] at found
      have found : (if b.start ≤ last.start then some last else some b) = some n := found
      split at found
      · next isLater =>
        obtain rfl := Option.some.inj found
        refine ⟨before ++ b :: after, [], rfl, ?_, by simp⟩
        intro m member
        have bLast : b.start ≤ last.start := isLater
        rcases List.mem_append.mp member with inBefore | inRest
        · exact (early m inBefore).trans bLast
        · rcases List.mem_cons.mp inRest with rfl | inAfter
          · exact bLast
          · exact (late m inAfter).le.trans bLast
      · next isEarlier =>
        obtain rfl := Option.some.inj found
        refine ⟨before, after ++ [last], by simp, early, ?_⟩
        intro m member
        rcases List.mem_append.mp member with inAfter | isLast
        · exact late m inAfter
        · rw [List.mem_singleton.mp isLast]
          exact not_le.mp isEarlier

/-- Only one node of a list starts no earlier than those before it and later than those behind it. -/
theorem split_unique {before before' after after' : List Node} {n n' : Node}
    (same : before ++ n :: after = before' ++ n' :: after')
    (early : ∀ m ∈ before, m.start ≤ n.start) (late : ∀ m ∈ after, m.start < n.start)
    (early' : ∀ m ∈ before', m.start ≤ n'.start) (late' : ∀ m ∈ after', m.start < n'.start) :
    n = n' := by
  have apart : ∀ {x y : List Node} {a b : Node}, b ∈ y → (∀ m ∈ y, m.start < a.start) →
      (∀ m ∈ x, m.start ≤ b.start) → a ∈ x → False := by
    intro x y a b inY lateY earlyX inX
    have less := lateY b inY
    have more := earlyX a inX
    omega
  rcases List.append_eq_append_iff.mp same with ⟨z, rfl, rest⟩ | ⟨z, rfl, rest⟩
  · cases z with
    | nil => exact (List.cons.inj rest).1
    | cons c z =>
      obtain ⟨rfl, rfl⟩ := List.cons.inj rest
      exact (apart (by simp) late early' (by simp)).elim
  · cases z with
    | nil => exact (List.cons.inj rest).1.symm
    | cons c z =>
      obtain ⟨rfl, rfl⟩ := List.cons.inj rest
      exact (apart (by simp) late' early (by simp)).elim

/-- Calls on a line are told to come from its caller, and from no one else. -/
theorem callerOf_iff {f : FileReading} {line : Nat} {caller : String} :
    callerOf ⟨f, f.symbols⟩ line = caller ↔ f.Caller line caller := by
  have cases_of : f.Caller line (callerOf ⟨f, f.symbols⟩ line) := by
    unfold callerOf
    split
    · next n found =>
      obtain ⟨before, after, split, early, late⟩ := foldl_laterStart found
      exact .function split early late
    · next none => exact .file (foldl_laterStart_none none)
  constructor
  · rintro rfl
    exact cases_of
  · intro is
    generalize callerOf ⟨f, f.symbols⟩ line = other at cases_of
    cases is with
    | file empty =>
      cases cases_of with
      | file => rfl
      | function split => simp [empty] at split
    | function split early late =>
      cases cases_of with
      | file empty => simp [empty] at split
      | function split' early' late' =>
        rw [split_unique (split'.symm.trans split) early' late' early late]

/-! ### Names in a file -/

/-- A kind and a name mean the symbol of that kind and name, if the file declares it. -/
theorem ofKind_symbols {f : FileReading} {kind : NodeKind} {name id : String} :
    Names.ofKind? f.symbols kind name = some id ↔
      f.Declares kind name ∧ id = Node.idOfSymbol kind f.path name := by
  constructor
  · intro found
    obtain ⟨n, member, rfl, rfl, rfl⟩ := ofKind_mem found
    obtain ⟨d, declared, rfl⟩ := List.mem_map.mp member
    exact ⟨⟨d, declared, rfl, rfl⟩, rfl⟩
  · rintro ⟨⟨d, declared, rfl, rfl⟩, rfl⟩
    cases found : Names.ofKind? f.symbols d.kind d.name with
    | none =>
      have nowhere := List.find?_eq_none.mp (Option.map_eq_none_iff.mp found) (f.symbol d)
        (List.mem_map_of_mem declared)
      simp at nowhere
    | some id =>
      obtain ⟨n, member, rfl, kinds, names⟩ := ofKind_mem found
      obtain ⟨e, -, rfl⟩ := List.mem_map.mp member
      rw [FileReading.symbol_kind] at kinds
      rw [FileReading.symbol_label] at names
      rw [FileReading.symbol_id, kinds, names]

/-- What a name means in a file that looks for one kind and then for another one. -/
theorem ofKind_orElse {f : FileReading} {first second : NodeKind} {name id : String} :
    (match Names.ofKind? f.symbols first name with
      | some id => some id
      | none => Names.ofKind? f.symbols second name) = some id ↔
      (f.Declares first name ∧ id = Node.idOfSymbol first f.path name) ∨
        ¬ f.Declares first name ∧ f.Declares second name ∧
          id = Node.idOfSymbol second f.path name := by
  cases found : Names.ofKind? f.symbols first name with
  | some same =>
    obtain ⟨declares, rfl⟩ := ofKind_symbols.mp found
    simp [declares, eq_comm]
  | none =>
    have none : ¬ f.Declares first name := by
      intro declares
      rw [ofKind_symbols.mpr ⟨declares, rfl⟩] at found
      cases found
    simp only [ofKind_symbols, none, false_and, not_false_eq_true, true_and, false_or]

/-- What can be called in a file under a name. -/
theorem callable_iff {f : FileReading} {name id : String} :
    Names.callable? f.symbols name = some id ↔ f.CallableIn name id := by
  refine ofKind_orElse.trans ?_
  constructor
  · rintro (⟨declares, rfl⟩ | ⟨none, declares, rfl⟩)
    · exact .function declares
    · exact .classType none declares
  · intro callable
    cases callable with
    | function declares => exact .inl ⟨declares, rfl⟩
    | classType none declares => exact .inr ⟨none, declares, rfl⟩

/-! ### Names that are imported -/

section

variable {files : List FileReading}

/-- What an import means among the files of a repository. -/
theorem means_iff {f : FileReading} {i : Import} {path : String} :
    f.Means files i path ↔
      Source.importedFile? (Sources.ofFiles files).paths.contains f.path i.moduleName = some path ∧
        path ≠ f.path := by
  rw [FileReading.Means, Sources.contains_eq]

/-- The last import of a list that means another file and binds a name. -/
def LastBinding (files : List FileReading) (f : FileReading) (name : String) (imports : List Import)
    (path : String) : Prop :=
  ∃ before i after, imports = before ++ i :: after ∧ name ∈ i.names ∧ f.Means files i path ∧
    ∀ j ∈ after, name ∈ j.names → ∀ other, ¬ f.Means files j other

variable {f : FileReading} {name path : String} {rest : List Import} {last : Import}

theorem lastBinding_of_binds (bound : name ∈ last.names) (means : f.Means files last path)
    {other : String} : LastBinding files f name (rest ++ [last]) other ↔ path = other := by
  constructor
  · rintro ⟨before, i, after, same, -, means', none⟩
    rcases List.eq_nil_or_concat after with rfl | ⟨after, j, rfl⟩
    · obtain ⟨rfl, single⟩ := List.append_inj' same rfl
      obtain rfl := List.singleton_inj.mp single
      exact Option.some.inj (means.1.symm.trans means'.1)
    · have shorter : rest ++ [last] = (before ++ i :: after) ++ [j] := by simpa using same
      obtain ⟨-, single⟩ := List.append_inj' shorter rfl
      obtain rfl := List.singleton_inj.mp single
      exact absurd means (none last (by simp) bound path)
  · rintro rfl
    exact ⟨rest, last, [], rfl, bound, means, by simp⟩

/-- The last import does not count if it does not bind the name. -/
theorem lastBinding_of_not_binds (free : name ∈ last.names → ∀ other, ¬ f.Means files last other) :
    LastBinding files f name (rest ++ [last]) path ↔ LastBinding files f name rest path := by
  constructor
  · rintro ⟨before, i, after, same, bound, means, none⟩
    rcases List.eq_nil_or_concat after with rfl | ⟨after, j, rfl⟩
    · obtain ⟨rfl, single⟩ := List.append_inj' same rfl
      obtain rfl := List.singleton_inj.mp single
      exact absurd means (free bound path)
    · have shorter : rest ++ [last] = (before ++ i :: after) ++ [j] := by simpa using same
      obtain ⟨rfl, -⟩ := List.append_inj' shorter rfl
      exact ⟨before, i, after, rfl, bound, means, fun k member => none k (by simp [member])⟩
  · rintro ⟨before, i, after, rfl, bound, means, none⟩
    refine ⟨before, i, after ++ [last], by simp, bound, means, ?_⟩
    intro j member
    rcases List.mem_append.mp member with inAfter | isLast
    · exact none j inAfter
    · rw [List.mem_singleton.mp isLast]
      exact free

theorem importedFrom_iff : importedFrom? (resolvedImports (Sources.ofFiles files) f) name =
    some path ↔ f.ImportedFrom files name path := by
  show _ ↔ LastBinding files f name f.imports path
  unfold resolvedImports
  induction f.imports using List.reverseRecOn with
  | nil =>
    constructor
    · intro found
      cases found
    · rintro ⟨before, i, after, same, -⟩
      simp at same
  | append_singleton rest last ih =>
    rw [List.filterMap_append]
    unfold importedFrom? at ih ⊢
    rw [List.reverse_append, List.find?_append, Option.map_or]
    by_cases binds : name ∈ last.names ∧ ∃ other, f.Means files last other
    · obtain ⟨bound, other, means⟩ := binds
      rw [lastBinding_of_binds bound means]
      obtain ⟨found, different⟩ := means_iff.mp means
      simp [found, different, bound]
    · have free : name ∈ last.names → ∀ other, ¬ f.Means files last other :=
        fun bound other means => binds ⟨bound, other, means⟩
      rw [lastBinding_of_not_binds free, ← ih]
      cases found : Source.importedFile? (Sources.ofFiles files).paths.contains f.path
          last.moduleName with
      | none => simp [found]
      | some target =>
        by_cases own : target = f.path
        · simp [found, own]
        · have unbound : name ∉ last.names := fun bound => free bound target (means_iff.mpr ⟨found, own⟩)
          simp [found, own, unbound]

end

end Assembly

end CodeAtlas
