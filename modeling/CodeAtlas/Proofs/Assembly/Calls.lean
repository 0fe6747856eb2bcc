import CodeAtlas.Proofs.Assembly.Lookup
import CodeAtlas.Proofs.Double.Quotient

/-!
# Calls are resolved exactly

The calls of an assembled graph are what the calls of its files resolve to: to what a name is
imported as, else to what the file itself declares, else to one or all of the symbols with that name,
with falling certainty. Two calls that give one edge agree on how certain it is.
-/

namespace CodeAtlas

/-- The calls of a graph: who calls, what is called, how certain that is and why. -/
def RepoGraph.calls (g : RepoGraph) : List (String × String × Float × String) :=
  (g.edges.filter fun e => e.kind == .calls).map fun e => (e.source, e.target, e.confidence, e.reason)

namespace FileReading

/-- Something can be called in a file under a name that is imported. -/
def Imports (f : FileReading) (files : List FileReading) (name target : String) : Prop :=
  ∃ g ∈ files, f.ImportedFrom files name g.path ∧ g.CallableIn name target

/-- Nothing can be called under a name that is imported or in the file itself. -/
def Unknown (f : FileReading) (files : List FileReading) (name : String) : Prop :=
  (∀ target, ¬ f.Imports files name target) ∧ ∀ target, ¬ f.CallableIn name target

/-- What a called name means in a file of a graph, how certain that is and why. -/
inductive Resolves (f : FileReading) (files : List FileReading) (g : RepoGraph)
    (rule : CandidateRule) (name : String) : String → Float → String → Prop where
  | imported {target : String} : f.Imports files name target →
      Resolves f files g rule name target 0.9 "import-resolved"
  | sameFile {target : String} : (∀ other, ¬ f.Imports files name other) →
      f.CallableIn name target → Resolves f files g rule name target 0.85 "same-file"
  | single {n : Node} : f.Unknown files name → g.callables name = [n] →
      Resolves f files g rule name n.id 0.5 "fuzzy-global-single"
  | first {n : Node} : f.Unknown files name → rule = .firstMatch →
      2 ≤ (g.callables name).length → n ∈ g.callables name →
      (∀ m ∈ g.callables name, n.id ≤ m.id) →
      Resolves f files g rule name n.id 0.3 "fuzzy-global-multiple"
  | split {n : Node} : f.Unknown files name → rule = .splitAll →
      2 ≤ (g.callables name).length → n ∈ g.callables name →
      Resolves f files g rule name n.id (max (0.3 / Float.ofNat (g.callables name).length) 0.05)
        "fuzzy-global-split"

end FileReading

namespace Assembly

/-! ### Certainties of calls -/

/-- A part of the certainty of several candidates is no greater than all of it. -/
theorem part_denotes {n : Nat} (positive : 0 < n) :
    ∃ p q, Double.Denotes 0.3 p ∧ Double.Denotes (0.3 / Float.ofNat n) q ∧ q ≤ p ∧ p ≤ 1 := by
  have inside : Double.InUnit 0.3 := by decide
  obtain ⟨p, known, small⟩ := inside.denotes
  have fits : p < Double.limit :=
    small.trans_lt (lt_of_eq_of_lt (zpow_zero 2).symm (Double.zpow_lt_limit (by norm_num)))
  obtain ⟨q, part, less⟩ := Double.div_ofNat_le known fits positive
  exact ⟨p, q, known, part, less, small⟩

/-- The certainty of one of several candidates is the greater of its part and the least one. -/
theorem oneOf_confidence {n : Nat} (positive : 0 < n) :
    (CallTier.oneOf n).confidence = max (0.3 / Float.ofNat n) 0.05 := by
  obtain ⟨-, q, -, part, -⟩ := part_denotes positive
  have least : Double.Number 0.05 := (Double.number_of_le (y := 1.0) (by decide)).1
  show (if Scalar.less (0.05 : Float) (0.3 / Float.ofNat n) then 0.3 / Float.ofNat n else 0.05) =
    if 0.3 / Float.ofNat n ≤ 0.05 then 0.05 else 0.3 / Float.ofNat n
  by_cases less : (0.05 : Float) < 0.3 / Float.ofNat n
  · have notMost : ¬ 0.3 / Float.ofNat n ≤ 0.05 := by
      rw [← Double.not_lt_iff least part.number, not_not]
      exact less
    have lessToo : Scalar.less (0.05 : Float) (0.3 / Float.ofNat n) = true := decide_eq_true less
    rw [if_neg notMost, if_pos lessToo]
  · have most : 0.3 / Float.ofNat n ≤ 0.05 := (Double.not_lt_iff least part.number).mp less
    have notLess : ¬ Scalar.less (0.05 : Float) (0.3 / Float.ofNat n) = true := by
      rw [show Scalar.less (0.05 : Float) (0.3 / Float.ofNat n) = decide _ from rfl,
        decide_eq_true_iff]
      exact less
    rw [if_pos most, if_neg notLess]

/-- The certainty of a tier lies between zero and one, if it is not one of none. -/
theorem CallTier.confidence_inUnit {tier : CallTier} (some : tier ≠ .oneOf 0) :
    Double.InUnit tier.confidence := by
  cases tier with
  | imported | sameFile | single | first => decide
  | oneOf n =>
    have positive : 0 < n := Nat.pos_of_ne_zero fun zero => some (by rw [zero])
    obtain ⟨p, q, -, part, less, small⟩ := part_denotes positive
    have inside := part.inUnit (less.trans small)
    rw [oneOf_confidence positive]
    show Double.InUnit (if 0.3 / Float.ofNat n ≤ 0.05 then 0.05 else 0.3 / Float.ofNat n)
    split
    · decide
    · exact inside

/-! ### Candidates in the whole graph -/

/-- The ids of the symbols of a graph of a name whose kinds fit are those of its files. -/
theorem build_sortedIds (owner name branch : String) (files : List FileReading)
    (rule : CandidateRule) {fits : NodeKind → Bool} (noFile : fits .file = false) (label : String) :
    Names.sortedIds fits (Sources.ofFiles files).symbols label =
      (((build owner name branch files rule).nodes.filter
        fun n => fits n.kind && n.label == label).map Node.id).mergeSort
          fun a b => decide (a ≤ b) := by
  -- communities change neither kind nor name nor id
  have kept : ((build owner name branch files rule).nodes.map fun n => (n.kind, n.label, n.id)) =
      ((Sources.ofFiles files).files.map (·.file.node) ++ (Sources.ofFiles files).symbols).map
        fun n => (n.kind, n.label, n.id) :=
    Communities.assign_map (fun n => (n.kind, n.label, n.id)) (fun _ _ => rfl) _ _
  have named : ∀ nodes : List Node,
      (nodes.filter fun n => fits n.kind && n.label == label).map Node.id =
        ((nodes.map fun n => (n.kind, n.label, n.id)).filter
          fun x => fits x.1 && x.2.1 == label).map fun x => x.2.2 := by
    intro nodes
    rw [List.filter_map, List.map_map]
    rfl
  have noFiles : ((Sources.ofFiles files).files.map (·.file.node)).filter
      (fun n => fits n.kind && n.label == label) = [] := by
    rw [List.filter_eq_nil_iff]
    intro n member
    obtain ⟨d, -, rfl⟩ := List.mem_map.mp member
    simp [noFile]
  rw [Names.sortedIds, named (build _ _ _ _ _).nodes, kept, ← named, List.filter_append, noFiles,
    List.nil_append]

/-- The ids of the symbols of a graph that can be called under a name are those of its files. -/
theorem build_callables (owner name branch : String) (files : List FileReading)
    (rule : CandidateRule) (callee : String) :
    Names.callableIds (Sources.ofFiles files).symbols callee =
      (((build owner name branch files rule).callables callee).map Node.id).mergeSort
        fun a b => decide (a ≤ b) :=
  build_sortedIds owner name branch files rule rfl callee

theorem least_iff {least target : String} {rest ids : List String} (perm : (least :: rest).Perm ids)
    (ordered : (least :: rest).Pairwise (· ≤ ·)) :
    target ∈ ids ∧ (∀ id ∈ ids, target ≤ id) ↔ target = least := by
  have inIds : least ∈ ids := perm.mem_iff.mp List.mem_cons_self
  have least_le : ∀ id ∈ ids, least ≤ id := by
    intro id member
    rcases List.mem_cons.mp (perm.mem_iff.mpr member) with rfl | later
    · exact String.le_refl _
    · exact (List.pairwise_cons.mp ordered).1 id later
  constructor
  · rintro ⟨member, le⟩
    exact String.le_antisymm (le least inIds) (least_le target member)
  · rintro rfl
    exact ⟨inIds, least_le⟩

theorem mem_globalTargets {rule : CandidateRule} {ids : List String} {target : String}
    {tier : CallTier} :
    (target, tier) ∈ globalTargets rule (ids.mergeSort fun a b => decide (a ≤ b)) ↔
      (ids = [target] ∧ tier = .single) ∨
      (2 ≤ ids.length ∧ rule = .firstMatch ∧ target ∈ ids ∧ (∀ id ∈ ids, target ≤ id) ∧
        tier = .first) ∨
      (2 ≤ ids.length ∧ rule = .splitAll ∧ target ∈ ids ∧ tier = .oneOf ids.length) := by
  have perm : (ids.mergeSort fun a b => decide (a ≤ b)).Perm ids := List.mergeSort_perm ids _
  have ordered : (ids.mergeSort fun a b => decide (a ≤ b)).Pairwise (· ≤ ·) :=
    Text.mergeSort_ordered id ids
  generalize ids.mergeSort (fun a b => decide (a ≤ b)) = sorted at perm ordered
  have length := perm.length_eq
  match sorted, perm, ordered, length with
  | [], perm, _, length =>
    obtain rfl := List.nil_perm.mp perm
    simp [globalTargets]
  | [only], perm, _, length =>
    obtain rfl := List.singleton_perm.mp perm
    simp [globalTargets, eq_comm]
  | least :: next :: more, perm, ordered, length =>
    have several : 2 ≤ ids.length := by
      rw [← length]
      simp
    have notOne : ids ≠ [target] := by
      rintro rfl
      simp at several
    cases rule with
    | firstMatch =>
      simp only [globalTargets, List.mem_singleton, Prod.mk.injEq, notOne, false_and, false_or,
        several, true_and, reduceCtorEq, and_false, or_false]
      rw [← and_assoc, least_iff perm ordered]
    | splitAll =>
      have count : (next :: more).length + 1 = ids.length := by
        rw [← length]
        rfl
      simp only [globalTargets, List.mem_map, Prod.mk.injEq, notOne, false_and, false_or, several,
        true_and, reduceCtorEq, count, perm.mem_iff]
      constructor
      · rintro ⟨id, member, rfl, rfl⟩
        exact ⟨member, rfl⟩
      · rintro ⟨member, rfl⟩
        exact ⟨target, member, rfl, rfl⟩

/-! ### What calls resolve to -/

section

variable {files : List FileReading} (plain : ∀ f ∈ files, f.Plain)
  (distinct : (files.map FileReading.path).Nodup)

include plain distinct

theorem imports_iff {f : FileReading} {name target : String} :
    ((importedFrom? (resolvedImports (Sources.ofFiles files) f) name).bind fun path =>
        Names.callable? ((Sources.ofFiles files).symbolsOf path) name) = some target ↔
      f.Imports files name target := by
  rw [Option.bind_eq_some_iff]
  constructor
  · rintro ⟨path, imported, callable⟩
    rw [importedFrom_iff] at imported
    obtain ⟨before, i, after, -, -, means, -⟩ := id imported
    have present := Source.present_of_importedFile means.1
    obtain ⟨g, inFiles, rfl⟩ := List.mem_map.mp (of_decide_eq_true present)
    rw [Sources.symbolsOf_path plain ((mem_sortedFiles distinct).mpr inFiles),
      callable_iff] at callable
    exact ⟨g, inFiles, imported, callable⟩
  · rintro ⟨g, inFiles, imported, callable⟩
    refine ⟨g.path, importedFrom_iff.mpr imported, ?_⟩
    rw [Sources.symbolsOf_path plain ((mem_sortedFiles distinct).mpr inFiles), callable_iff]
    exact callable

/-- What a called name means in a file, tier by tier. -/
theorem mem_callTargets {rule : CandidateRule} {f : FileReading} {callee target : String}
    {tier : CallTier} :
    (target, tier) ∈ callTargets (Sources.ofFiles files) rule ⟨f, f.symbols⟩
        (resolvedImports (Sources.ofFiles files) f) callee ↔
      (f.Imports files callee target ∧ tier = .imported) ∨
      ((∀ other, ¬ f.Imports files callee other) ∧ f.CallableIn callee target ∧
        tier = .sameFile) ∨
      (f.Unknown files callee ∧ (target, tier) ∈ globalTargets rule
        (Names.callableIds (Sources.ofFiles files).symbols callee)) := by
  unfold callTargets
  split
  · next id found =>
    have imports := (imports_iff plain distinct).mp found
    have notUnknown : ¬ f.Unknown files callee := fun unknown => unknown.1 id imports
    have isId : f.Imports files callee target ↔ target = id := by
      rw [← imports_iff plain distinct, found, Option.some.injEq, eq_comm]
    have someImports : ¬ ∀ other, ¬ f.Imports files callee other := fun none => none id imports
    rw [List.mem_singleton, Prod.mk.injEq, isId]
    simp only [someImports, notUnknown, false_and, or_false]
  · next notFound =>
    have noImports : ∀ other, ¬ f.Imports files callee other := by
      intro other imports
      rw [← imports_iff plain distinct, notFound] at imports
      cases imports
    split
    · next id found =>
      have callable := callable_iff.mp found
      have notUnknown : ¬ f.Unknown files callee := fun unknown => unknown.2 id callable
      have isId : f.CallableIn callee target ↔ target = id := by
        rw [← callable_iff, found, Option.some.injEq, eq_comm]
      rw [List.mem_singleton, Prod.mk.injEq, isId]
      simp only [noImports target, noImports, notUnknown, false_and, or_false, false_or,
        not_false_eq_true, implies_true, true_and]
    · next notFound' =>
      have noCallable : ∀ other, ¬ f.CallableIn callee other := by
        intro other callable
        rw [← callable_iff, notFound'] at callable
        cases callable
      have unknown : f.Unknown files callee := ⟨noImports, noCallable⟩
      simp only [noImports target, noCallable target, unknown, false_and, and_false, false_or,
        true_and]

/-- What a called name means in a file is what it resolves to. -/
theorem resolves_iff (owner name branch : String) {rule : CandidateRule} {f : FileReading}
    {callee target reason : String} {confidence : Float} :
    f.Resolves files (build owner name branch files rule) rule callee target confidence reason ↔
      ∃ tier, (target, tier) ∈ callTargets (Sources.ofFiles files) rule ⟨f, f.symbols⟩
          (resolvedImports (Sources.ofFiles files) f) callee ∧
        tier.confidence = confidence ∧ tier.reason = reason := by
  simp only [mem_callTargets plain distinct, build_callables owner name branch files rule,
    mem_globalTargets]
  constructor
  · intro resolves
    cases resolves with
    | imported imports => exact ⟨.imported, .inl ⟨imports, rfl⟩, rfl, rfl⟩
    | sameFile noImports callable =>
      exact ⟨.sameFile, .inr (.inl ⟨noImports, callable, rfl⟩), rfl, rfl⟩
    | single unknown only =>
      exact ⟨.single, .inr (.inr ⟨unknown, .inl ⟨by rw [only]; rfl, rfl⟩⟩), rfl, rfl⟩
    | first unknown rule several member least =>
      refine ⟨.first, .inr (.inr ⟨unknown, .inr (.inl ⟨?_, rule, ?_, ?_, rfl⟩)⟩), rfl, rfl⟩
      · rwa [List.length_map]
      · exact List.mem_map_of_mem member
      · intro id inIds
        obtain ⟨m, inNodes, rfl⟩ := List.mem_map.mp inIds
        exact least m inNodes
    | split unknown rule several member =>
      refine ⟨_, .inr (.inr ⟨unknown, .inr (.inr ⟨?_, rule, ?_, rfl⟩)⟩), ?_, rfl⟩
      · rwa [List.length_map]
      · exact List.mem_map_of_mem member
      · rw [List.length_map]
        exact oneOf_confidence (by omega)
  · rintro ⟨tier, means, rfl, rfl⟩
    rcases means with ⟨imports, rfl⟩ | ⟨noImports, callable, rfl⟩ | ⟨unknown, means⟩
    · exact .imported imports
    · exact .sameFile noImports callable
    · rcases means with ⟨only, rfl⟩ | ⟨several, rule, member, least, rfl⟩ |
        ⟨several, rule, member, rfl⟩
      · obtain ⟨n, single, rfl⟩ := List.map_eq_singleton_iff.mp only
        exact .single unknown single
      · obtain ⟨n, inNodes, rfl⟩ := List.mem_map.mp member
        rw [List.length_map] at several
        exact .first unknown rule several inNodes fun m inNodes' =>
          least m.id (List.mem_map_of_mem inNodes')
      · obtain ⟨n, inNodes, rfl⟩ := List.mem_map.mp member
        rw [List.length_map] at several ⊢
        rw [oneOf_confidence (by omega)]
        exact .split unknown rule several inNodes

/-- There is at least one candidate for each that is taken. -/
theorem tier_ne_none {rule : CandidateRule} {f : FileReading} {callee target : String}
    {tier : CallTier}
    (means : (target, tier) ∈ callTargets (Sources.ofFiles files) rule ⟨f, f.symbols⟩
      (resolvedImports (Sources.ofFiles files) f) callee) : tier ≠ .oneOf 0 := by
  rw [mem_callTargets plain distinct, build_callables "" "" "" files rule,
    mem_globalTargets] at means
  rintro rfl
  rcases means with ⟨-, absurd⟩ | ⟨-, -, absurd⟩ | ⟨-, means⟩
  · cases absurd
  · cases absurd
  · rcases means with ⟨-, absurd⟩ | ⟨-, -, -, -, absurd⟩ | ⟨several, -, -, count⟩
    · cases absurd
    · cases absurd
    · have none := CallTier.oneOf.inj count
      omega

/-- What is called under a name is a symbol of that name. -/
theorem target_named {rule : CandidateRule} {f : FileReading} {callee target : String}
    {tier : CallTier} (inFiles : f ∈ files)
    (means : (target, tier) ∈ callTargets (Sources.ofFiles files) rule ⟨f, f.symbols⟩
      (resolvedImports (Sources.ofFiles files) f) callee) :
    ∃ g ∈ files, ∃ d ∈ g.declarations, target = (g.symbol d).id ∧ d.name = callee := by
  have declared : ∀ {g : FileReading}, g ∈ files → g.CallableIn callee target →
      ∃ g ∈ files, ∃ d ∈ g.declarations, target = (g.symbol d).id ∧ d.name = callee := by
    intro g inFiles callable
    cases callable with
    | function declares =>
      obtain ⟨d, inG, kind, name⟩ := declares
      exact ⟨g, inFiles, d, inG, by rw [FileReading.symbol_id, kind, name], name⟩
    | classType _ declares =>
      obtain ⟨d, inG, kind, name⟩ := declares
      exact ⟨g, inFiles, d, inG, by rw [FileReading.symbol_id, kind, name], name⟩
  rw [mem_callTargets plain distinct] at means
  rcases means with ⟨⟨g, inFiles', -, callable⟩, -⟩ | ⟨-, callable, -⟩ | ⟨-, means⟩
  · exact declared inFiles' callable
  · exact declared inFiles callable
  · obtain ⟨n, member, rfl, -, label⟩ := mem_sortedIds.mp (globalTargets_mem means)
    rw [Sources.ofFiles_symbols plain] at member
    obtain ⟨g, inSorted, inSymbols⟩ := List.mem_flatMap.mp member
    obtain ⟨d, inG, rfl⟩ := List.mem_map.mp inSymbols
    exact ⟨g, sortedFiles_subset inSorted, d, inG, rfl, label⟩

end

/-- All that a called name means among all candidates is equally certain. -/
theorem globalTargets_tier (rule : CandidateRule) (ids : List String) :
    ∃ tier, ∀ x ∈ globalTargets rule ids, x.2 = tier := by
  unfold globalTargets
  split
  · exact ⟨.single, by simp⟩
  · exact ⟨.single, by simp⟩
  · next id more _ =>
    cases rule with
    | firstMatch => exact ⟨.first, by simp⟩
    | splitAll =>
      refine ⟨.oneOf (more.length + 1), ?_⟩
      intro x member
      obtain ⟨id, -, rfl⟩ := List.mem_map.mp member
      rfl

/-- All that a called name means in a file is equally certain. -/
theorem callTargets_tier (s : Sources) (rule : CandidateRule) (d : Declared)
    (resolved : List (Import × String)) (callee : String) :
    ∃ tier, ∀ x ∈ callTargets s rule d resolved callee, x.2 = tier := by
  unfold callTargets
  split
  · exact ⟨.imported, by simp⟩
  · split
    · exact ⟨.sameFile, by simp⟩
    · exact globalTargets_tier rule _

/-! ### The calls of a graph -/

/-- In some file there is a call by the caller to the target, found in this tier. -/
def CallsOf (files : List FileReading) (rule : CandidateRule) (caller target : String)
    (tier : CallTier) : Prop :=
  ∃ f ∈ files, ∃ c ∈ f.calls, callerOf ⟨f, f.symbols⟩ c.line = caller ∧
    (target, tier) ∈ callTargets (Sources.ofFiles files) rule ⟨f, f.symbols⟩
      (resolvedImports (Sources.ofFiles files) f) c.callee

/-- Who calls in a file is named by the file or by a declaration in it. -/
theorem callerOf_id (f : FileReading) (line : Nat) : callerOf ⟨f, f.symbols⟩ line = f.id ∨
    ∃ d ∈ f.declarations, callerOf ⟨f, f.symbols⟩ line = (f.symbol d).id := by
  rcases callerOf_mem ⟨f, f.symbols⟩ line with file | ⟨n, member, symbol⟩
  · exact .inl file
  · obtain ⟨d, declared, rfl⟩ := List.mem_map.mp member
    exact .inr ⟨d, declared, symbol⟩

theorem callerOf_path {f g : FileReading} (plainF : f.Plain) (plainG : g.Plain) {line line' : Nat}
    (same : callerOf ⟨f, f.symbols⟩ line = callerOf ⟨g, g.symbols⟩ line') : f.path = g.path := by
  rcases callerOf_id f line with fileF | ⟨d, inF, symbolF⟩
  · rcases callerOf_id g line' with fileG | ⟨e, inG, symbolG⟩
    · exact Node.idOfFile_inj (fileF.symm.trans (same.trans fileG))
    · exact absurd (symbolG.symm.trans (same.symm.trans fileF))
        (Node.idOfSymbol_ne_idOfFile (plainG.declaration inG).kind _ _ _)
  · rcases callerOf_id g line' with fileG | ⟨e, inG, symbolG⟩
    · exact absurd (symbolF.symm.trans (same.trans fileG))
        (Node.idOfSymbol_ne_idOfFile (plainF.declaration inF).kind _ _ _)
    · exact (FileReading.symbol_id_inj plainF plainG inF inG
        (symbolF.symm.trans (same.trans symbolG))).1

/-- There is no arrow in the id of a caller unless there is one in the path of its file. -/
theorem arrowless_callerOf {f : FileReading} (plain : f.Plain) (free : Arrowless f.path.toList)
    (line : Nat) : Arrowless (callerOf ⟨f, f.symbols⟩ line).toList := by
  rcases callerOf_id f line with file | ⟨d, declared, symbol⟩
  · rw [file]
    exact Node.arrowless_idOfFile free
  · rw [symbol]
    exact Node.arrowless_idOfSymbol free (plain.declaration declared).name

section

variable {files : List FileReading} (plain : ∀ f ∈ files, f.Plain)
  (free : ∀ f ∈ files, Arrowless f.path.toList) {rule : CandidateRule}

include plain free

/-- There is no arrow in the id of the node that a drawn edge leaves. -/
theorem Drawn.arrowless {e : Edge} (drawn : Drawn files rule e) : Arrowless e.source.toList := by
  have symbol : ∀ {f : FileReading} {d : Declaration}, f ∈ sortedFiles files →
      d ∈ f.declarations → Arrowless (f.symbol d).id.toList := by
    intro f d inFiles declared
    exact Node.arrowless_idOfSymbol (free f (sortedFiles_subset inFiles))
      ((plain f (sortedFiles_subset inFiles)).declaration declared).name
  cases drawn with
  | declaration inFiles inSymbols =>
    obtain ⟨d, declared, rfl⟩ := List.mem_map.mp inSymbols
    exact symbol inFiles declared
  | imported inFiles => exact Node.arrowless_idOfFile (free _ (sortedFiles_subset inFiles))
  | supertype inFiles declared => exact symbol inFiles declared
  | @call f c _ _ inFiles =>
    exact arrowless_callerOf (plain f (sortedFiles_subset inFiles))
      (free f (sortedFiles_subset inFiles)) c.line

/-- Drawn edges with one id agree on their kinds and their ends. -/
theorem Drawn.ends_eq {rule' : CandidateRule} {e e' : Edge} (drawn : Drawn files rule e)
    (drawn' : Drawn files rule' e') (same : e.id = e'.id) :
    e.kind = e'.kind ∧ e.source = e'.source ∧ e.target = e'.target := by
  rw [drawn.id_eq, drawn'.id_eq] at same
  exact Edge.idOf_inj (drawn.arrowless plain free) (drawn'.arrowless plain free) same

/-- Of every drawn edge between two nodes one of its kind between them is among those of the
repository. -/
theorem exists_edge_of_drawn {e : Edge} (drawn : Drawn files rule e)
    (proper : e.source ≠ e.target) : ∃ e' ∈ edges (Sources.ofFiles files) rule,
      e'.kind = e.kind ∧ e'.source = e.source ∧ e'.target = e.target := by
  obtain ⟨e', kept, same⟩ := exists_mem_of_drawn plain drawn proper
  exact ⟨e', kept, (drawn_of_mem plain kept).ends_eq plain free drawn same⟩

end

section

variable {files : List FileReading} (plain : ∀ f ∈ files, f.Plain)
  (distinct : (files.map FileReading.path).Nodup) {rule : CandidateRule}

include plain distinct

/-- An edge for a call that is drawn tells who calls what. -/
theorem callsOf_of_drawn {e : Edge} (drawn : Drawn files rule e) (kind : e.kind = .calls) :
    ∃ tier, CallsOf files rule e.source e.target tier ∧ e.confidence = tier.confidence ∧
      e.reason = tier.reason := by
  cases drawn with
  | declaration => cases kind
  | imported => cases kind
  | supertype _ _ reason =>
    obtain ⟨-, rfl⟩ | ⟨-, rfl⟩ := reason
    · cases kind
    · cases kind
  | call inFiles called means =>
    refine ⟨_, ⟨_, sortedFiles_subset inFiles, _, called, rfl, means⟩, ?_, rfl⟩
    exact Double.clampUnit_eq (CallTier.confidence_inUnit (tier_ne_none plain distinct means))

/-- Two calls by one caller to one target are found in the same tier. -/
theorem callsOf_tier {caller target : String} {tier tier' : CallTier}
    (h : CallsOf files rule caller target tier) (h' : CallsOf files rule caller target tier') :
    tier = tier' := by
  obtain ⟨f, inF, c, called, caller_eq, means⟩ := h
  obtain ⟨g, inG, c', called', caller_eq', means'⟩ := h'
  have paths := callerOf_path (plain f inF) (plain g inG) (caller_eq.trans caller_eq'.symm)
  obtain rfl := List.inj_on_of_nodup_map distinct inF inG paths
  obtain ⟨h, inH, d, declared, target_eq, name⟩ := target_named plain distinct inF means
  obtain ⟨k, inK, e, declared', target_eq', name'⟩ := target_named plain distinct inF means'
  have keys := (FileReading.symbol_id_inj (plain h inH) (plain k inK) declared declared'
    (target_eq.symm.trans target_eq')).2
  have callees : c.callee = c'.callee := by
    rw [← name, ← name']
    exact congrArg Prod.snd keys
  rw [← callees] at means'
  obtain ⟨only, unique⟩ := callTargets_tier (Sources.ofFiles files) rule ⟨f, f.symbols⟩
    (resolvedImports (Sources.ofFiles files) f) c.callee
  exact (unique _ means).trans (unique _ means').symm

/-- A call between two nodes has an edge if there are no arrows in the paths. -/
theorem exists_call_edge (free : ∀ f ∈ files, Arrowless f.path.toList) {caller target : String}
    {tier : CallTier} (calls : CallsOf files rule caller target tier) (proper : caller ≠ target) :
    ∃ e ∈ edges (Sources.ofFiles files) rule, e.kind = .calls ∧ e.source = caller ∧
      e.target = target := by
  obtain ⟨f, inFiles, c, called, rfl, means⟩ := calls
  have drawn : Drawn files rule (Edge.make (callerOf ⟨f, f.symbols⟩ c.line) target .calls
      tier.confidence tier.reason) := .call ((mem_sortedFiles distinct).mpr inFiles) called means
  exact exists_edge_of_drawn plain free drawn proper

end

/-- The calls of a graph are, each once, what the calls in its files resolve to, but for those by
which a symbol would call itself. -/
theorem build_calls (owner name branch : String) {files : List FileReading} (rule : CandidateRule)
    (genuine : ∀ f ∈ files, f.Genuine) (distinct : (files.map FileReading.path).Nodup)
    (free : ∀ f ∈ files, Arrowless f.path.toList) :
    ((build owner name branch files rule).calls.map fun c => (c.1, c.2.1)).Nodup ∧
      ∀ caller target confidence reason,
        (caller, target, confidence, reason) ∈ (build owner name branch files rule).calls ↔
          caller ≠ target ∧ ∃ f ∈ files, ∃ c ∈ f.calls, f.Caller c.line caller ∧
            f.Resolves files (build owner name branch files rule) rule c.callee target confidence
              reason := by
  have plain : ∀ f ∈ files, f.Plain := fun f member => (genuine f member).plain
  have drawn : ∀ e ∈ edges (Sources.ofFiles files) rule, Drawn files rule e :=
    fun e member => drawn_of_mem plain member
  constructor
  · rw [RepoGraph.calls, List.map_map, build_edges]
    apply List.Nodup.map_on _ ((edges_nodup rule).filter _)
    intro e member e' member' same
    obtain ⟨kept, kind⟩ := List.mem_filter.mp member
    obtain ⟨kept', kind'⟩ := List.mem_filter.mp member'
    obtain ⟨sources, targets⟩ : e.source = e'.source ∧ e.target = e'.target := Prod.mk.inj same
    exact edge_unique plain rule kept kept' ((eq_of_beq kind).trans (eq_of_beq kind').symm)
      sources targets
  · intro caller target confidence reason
    rw [RepoGraph.calls, build_edges, List.mem_map]
    constructor
    · rintro ⟨e, member, same⟩
      obtain ⟨kept, kind⟩ := List.mem_filter.mp member
      simp only [Prod.mk.injEq] at same
      obtain ⟨rfl, rfl, rfl, rfl⟩ := same
      obtain ⟨tier, ⟨f, inFiles, c, called, source, means⟩, certainty, why⟩ :=
        callsOf_of_drawn plain distinct (drawn e kept) (eq_of_beq kind)
      refine ⟨distinctEdges_loopless _ _ e kept, f, inFiles, c, called, callerOf_iff.mp source, ?_⟩
      rw [resolves_iff plain distinct]
      exact ⟨tier, means, certainty.symm, why.symm⟩
    · rintro ⟨proper, f, inFiles, c, called, isCaller, resolves⟩
      rw [resolves_iff plain distinct] at resolves
      obtain ⟨tier, means, rfl, rfl⟩ := resolves
      have calls : CallsOf files rule caller target tier :=
        ⟨f, inFiles, c, called, callerOf_iff.mpr isCaller, means⟩
      obtain ⟨e, kept, kind, rfl, rfl⟩ := exists_call_edge plain distinct free calls proper
      obtain ⟨tier', calls', certainty, why⟩ := callsOf_of_drawn plain distinct (drawn e kept) kind
      obtain rfl := callsOf_tier plain distinct calls calls'
      refine ⟨e, List.mem_filter.mpr ⟨kept, beq_iff_eq.mpr kind⟩, ?_⟩
      rw [certainty, why]

/-- A function that calls another one of its file. -/
theorem build_calls_sameFile :
    let f : FileReading :=
      ⟨"a.py", .python, some (Source.parse "def f():\n  g()\ndef g():\n  pass\n" "a.py")⟩
    (∀ x ∈ [f], x.Genuine) ∧ ([f].map FileReading.path).Nodup ∧
      (∀ x ∈ [f], Arrowless x.path.toList) ∧
      ("function:a.py::f", "function:a.py::g", 0.85, "same-file") ∈
        (build "owner" "name" "main" [f] .splitAll).calls := by
  intro f
  have genuine : ∀ x ∈ [f], x.Genuine := by
    intro x member
    have known : Language.ofPath? "a.py" = some .python := by decide
    obtain rfl := List.mem_singleton.mp member
    exact .inl ⟨"def f():\n  g()\ndef g():\n  pass\n", by rw [FileReading.ofSource?, known]; rfl⟩
  have distinct : ([f].map FileReading.path).Nodup := List.nodup_singleton _
  have free : ∀ x ∈ [f], Arrowless x.path.toList := by
    intro x member
    obtain rfl := List.mem_singleton.mp member
    have path : f.path.toList = ['a', '.', 'p', 'y'] := by decide
    rw [path, Arrowless]
    decide
  have called : (⟨"g", 2⟩ : Call) ∈ f.calls := by decide +kernel
  have isCaller : f.Caller 2 "function:a.py::f" := by
    have around : f.around 2 = [] ++ Node.ofSymbol .function "f" "a.py" "python" 1 2 :: [] := by
      decide +kernel
    exact .function around (by simp) (by simp)
  have noImports : ∀ other, ¬ f.Imports [f] "g" other := by
    rintro other ⟨g, -, ⟨before, i, after, split, -⟩, -⟩
    have none : f.imports = [] := by decide +kernel
    rw [none] at split
    simp at split
  have callable : f.CallableIn "g" "function:a.py::g" := by
    have declares : f.Declares .function "g" := by
      refine ⟨⟨"g", .function, 3, 4, [], []⟩, ?_, rfl, rfl⟩
      decide +kernel
    exact .function declares
  refine ⟨genuine, distinct, free, ?_⟩
  apply ((build_calls "owner" "name" "main" .splitAll genuine distinct free).2 _ _ _ _).mpr
  exact ⟨by decide, f, List.mem_singleton_self f, ⟨"g", 2⟩, called, isCaller,
    .sameFile noImports callable⟩

end Assembly

end CodeAtlas
