import CodeAtlas.Proofs.Assembly.Sources
import CodeAtlas.Proofs.Source.Resolution

/-!
# The edges of a repository

Edges are drawn for four reasons: a symbol lies in its file, a file imports another one, a type
has a supertype, something is called. Of the drawn edges the first of each id is kept, and none from
a node to itself. Every end of a drawn edge is the id of a file or of a symbol.
-/

namespace CodeAtlas

namespace Assembly

/-! ### Keeping the first edge of each id -/

section Distinct

variable {seen : Std.HashSet String} {es : List Edge} {e : Edge}

/-- An edge that is kept is one of the list. -/
theorem distinctEdges_sublist (seen : Std.HashSet String) (es : List Edge) :
    (distinctEdges seen es).Sublist es := by
  fun_induction distinctEdges seen es with
  | case1 => exact List.Sublist.refl _
  | case2 seen e rest _ ih => exact ih.cons e
  | case3 seen e rest _ ih => exact ih.cons_cons e

theorem distinctEdges_loopless (seen : Std.HashSet String) (es : List Edge) :
    ∀ e ∈ distinctEdges seen es, e.source ≠ e.target := by
  fun_induction distinctEdges seen es with
  | case1 => simp
  | case2 seen e rest _ ih => exact ih
  | case3 seen e rest kept ih =>
    intro e' member
    rcases List.mem_cons.mp member with rfl | later
    · intro loop
      simp [loop] at kept
    · exact ih e' later

/-- The ids of the edges that are kept are new and differ. -/
theorem distinctEdges_ids (seen : Std.HashSet String) (es : List Edge) :
    ((distinctEdges seen es).map Edge.id).Nodup ∧
      ∀ e ∈ distinctEdges seen es, seen.contains e.id = false := by
  fun_induction distinctEdges seen es with
  | case1 => simp
  | case2 seen e rest _ ih => exact ih
  | case3 seen e rest kept ih =>
    obtain ⟨nodup, fresh⟩ := ih
    simp only [Bool.or_eq_true, decide_eq_true_eq, not_or, Bool.not_eq_true] at kept
    simp only [Std.HashSet.contains_insert, Bool.or_eq_false_iff, beq_eq_false_iff_ne] at fresh
    refine ⟨List.nodup_cons.mpr ⟨?_, nodup⟩, ?_⟩
    · intro member
      obtain ⟨later, inRest, same⟩ := List.mem_map.mp member
      exact (fresh later inRest).1 same.symm
    · intro e' member
      rcases List.mem_cons.mp member with rfl | later
      · exact kept.2
      · exact (fresh e' later).2

/-- Of an edge between two nodes whose id is new, one with its id is kept. -/
theorem distinctEdges_covers (member : e ∈ es) (proper : e.source ≠ e.target)
    (isNew : seen.contains e.id = false) : ∃ e' ∈ distinctEdges seen es, e'.id = e.id := by
  induction es generalizing seen with
  | nil => simp at member
  | cons first rest ih =>
    unfold distinctEdges
    split
    · next dropped =>
      rcases List.mem_cons.mp member with rfl | later
      · simp [proper, isNew] at dropped
      · exact ih later isNew
    · by_cases same : first.id = e.id
      · exact ⟨first, List.mem_cons_self, same⟩
      · rcases List.mem_cons.mp member with rfl | later
        · exact absurd rfl same
        · have stillNew : (seen.insert first.id).contains e.id = false := by simp [same, isNew]
          obtain ⟨e', kept, sameId⟩ := ih later stillNew
          exact ⟨e', List.mem_cons_of_mem _ kept, sameId⟩

/-- If edges of one id have a property all or none, then of those that have it the first of each id
is kept, whether or not the others stand between them. -/
theorem filter_distinctEdges {P : Edge → Bool} {seen' : Std.HashSet String}
    (agree : ∀ e ∈ es, ∀ e' ∈ es, e.id = e'.id → P e = P e')
    (known : ∀ e ∈ es, P e = true → seen.contains e.id = seen'.contains e.id) :
    (distinctEdges seen es).filter P = distinctEdges seen' (es.filter P) := by
  induction es generalizing seen seen' with
  | nil => rfl
  | cons e rest ih =>
    have agreeRest : ∀ a ∈ rest, ∀ b ∈ rest, a.id = b.id → P a = P b := by
      intro a inRest b inRest'
      exact agree a (List.mem_cons_of_mem e inRest) b (List.mem_cons_of_mem e inRest')
    have knownRest : ∀ a ∈ rest, P a = true → seen.contains a.id = seen'.contains a.id := by
      intro a inRest
      exact known a (List.mem_cons_of_mem e inRest)
    by_cases has : P e = true
    · have seenAlike := known e List.mem_cons_self has
      rw [List.filter_cons_of_pos has]
      by_cases dropped : (e.source = e.target || seen'.contains e.id) = true
      · have dropped' : (e.source = e.target || seen.contains e.id) = true := by
          rw [seenAlike]
          exact dropped
        rw [distinctEdges, if_pos dropped', distinctEdges, if_pos dropped]
        exact ih agreeRest knownRest
      · have kept : ¬ (e.source = e.target || seen.contains e.id) = true := by
          rw [seenAlike]
          exact dropped
        rw [distinctEdges, if_neg kept, distinctEdges, if_neg dropped, List.filter_cons_of_pos has]
        congr 1
        apply ih agreeRest
        intro a inRest hasToo
        simp [knownRest a inRest hasToo]
    · rw [List.filter_cons_of_neg has]
      by_cases dropped : (e.source = e.target || seen.contains e.id) = true
      · rw [distinctEdges, if_pos dropped]
        exact ih agreeRest knownRest
      · rw [distinctEdges, if_neg dropped, List.filter_cons_of_neg has]
        apply ih agreeRest
        intro a inRest hasToo
        -- an edge without the property takes no id from those that have it
        have different : e.id ≠ a.id := by
          intro same
          exact has ((agree e List.mem_cons_self a (List.mem_cons_of_mem e inRest) same).trans hasToo)
        simp [different, knownRest a inRest hasToo]

/-- The edges that are kept and have a property are kept if all others are left out before. -/
theorem filter_distinctEdges_sublist (P : Edge → Bool) {seen' : Std.HashSet String}
    (fewer : ∀ id, seen'.contains id = true → seen.contains id = true) :
    ((distinctEdges seen es).filter P).Sublist (distinctEdges seen' (es.filter P)) := by
  induction es generalizing seen seen' with
  | nil => exact List.Sublist.refl _
  | cons e rest ih =>
    have fewerAfter : ∀ id, (seen'.insert e.id).contains id = true →
        (seen.insert e.id).contains id = true := by
      intro id inside
      rw [Std.HashSet.contains_insert, Bool.or_eq_true] at inside ⊢
      exact inside.imp_right (fewer id)
    by_cases has : P e = true
    · rw [List.filter_cons_of_pos has]
      by_cases loop : e.source = e.target
      · simpa [distinctEdges, loop] using ih fewer
      · by_cases taken : seen.contains e.id = true
        · have covered : ∀ id, (seen'.insert e.id).contains id = true →
              seen.contains id = true := by
            intro id inside
            rw [Std.HashSet.contains_insert, Bool.or_eq_true, beq_iff_eq] at inside
            rcases inside with rfl | before
            · exact taken
            · exact fewer id before
          by_cases taken' : seen'.contains e.id = true
          · simpa [distinctEdges, taken, taken'] using ih fewer
          · have later := (ih covered).cons e
            simpa [distinctEdges, loop, taken, taken'] using later
        · have free : ¬ seen'.contains e.id = true := fun inside => taken (fewer e.id inside)
          have both := (ih fewerAfter).cons_cons e
          simpa [distinctEdges, loop, taken, free, has] using both
    · rw [List.filter_cons_of_neg has]
      by_cases dropped : (e.source = e.target || seen.contains e.id) = true
      · rw [distinctEdges, if_pos dropped]
        exact ih fewer
      · have wider : ∀ id, seen'.contains id = true → (seen.insert e.id).contains id = true := by
          intro id inside
          simp [fewer id inside]
        rw [distinctEdges, if_neg dropped, List.filter_cons_of_neg has]
        exact ih wider

end Distinct

/-! ### What names mean -/

/-- What a kind and a name mean is a node of the kind and the name. -/
theorem ofKind_mem {nodes : List Node} {kind : NodeKind} {name id : String}
    (h : Names.ofKind? nodes kind name = some id) :
    ∃ n ∈ nodes, n.id = id ∧ n.kind = kind ∧ n.label = name := by
  obtain ⟨n, found, rfl⟩ := Option.map_eq_some_iff.mp h
  have fits := List.find?_some found
  simp only [Bool.and_eq_true, beq_iff_eq] at fits
  exact ⟨n, List.mem_of_find?_eq_some found, rfl, fits.1, fits.2⟩

/-- What is looked for under one kind, and then under another one, is of one of the two. -/
theorem ofKind_orElse_mem {nodes : List Node} {first second : NodeKind} {name id : String}
    (h : (match Names.ofKind? nodes first name with
      | some id => some id
      | none => Names.ofKind? nodes second name) = some id) :
    ∃ n ∈ nodes, n.id = id ∧ (n.kind = first ∨ n.kind = second) ∧ n.label = name := by
  split at h
  · next found =>
    obtain rfl := Option.some.inj h
    obtain ⟨n, member, same, kind, label⟩ := ofKind_mem found
    exact ⟨n, member, same, .inl kind, label⟩
  · obtain ⟨n, member, same, kind, label⟩ := ofKind_mem h
    exact ⟨n, member, same, .inr kind, label⟩

/-- What can be called under a name is a function or a class of that name. -/
theorem callable_mem {nodes : List Node} {name id : String}
    (h : Names.callable? nodes name = some id) :
    ∃ n ∈ nodes, n.id = id ∧ n.kind.isCallable = true ∧ n.label = name := by
  obtain ⟨n, member, same, kind, label⟩ := ofKind_orElse_mem h
  refine ⟨n, member, same, ?_, label⟩
  rcases kind with kind | kind <;> rw [kind] <;> rfl

/-- What is a type of a name is a class or an interface of that name. -/
theorem supertype_mem {nodes : List Node} {name id : String}
    (h : Names.supertype? nodes name = some id) :
    ∃ n ∈ nodes, n.id = id ∧ n.kind.isSupertype = true ∧ n.label = name := by
  obtain ⟨n, member, same, kind, label⟩ := ofKind_orElse_mem h
  refine ⟨n, member, same, ?_, label⟩
  rcases kind with kind | kind <;> rw [kind] <;> rfl

/-- The candidates for a name are the nodes of that name whose kind fits. -/
theorem mem_sortedIds {fits : NodeKind → Bool} {nodes : List Node} {name id : String} :
    id ∈ Names.sortedIds fits nodes name ↔
      ∃ n ∈ nodes, n.id = id ∧ fits n.kind = true ∧ n.label = name := by
  simp only [Names.sortedIds, List.mem_mergeSort, List.mem_map, List.mem_filter,
    Bool.and_eq_true, beq_iff_eq]
  grind

/-- What a called name means among all candidates is one of them. -/
theorem globalTargets_mem {rule : CandidateRule} {ids : List String} {id : String}
    {tier : CallTier} (h : (id, tier) ∈ globalTargets rule ids) : id ∈ ids := by
  unfold globalTargets at h
  split at h
  · simp at h
  · simp_all
  · split at h
    · simp_all
    · obtain ⟨id', member, same⟩ := List.mem_map.mp h
      obtain ⟨rfl, -⟩ := Prod.mk.inj same
      exact member

/-- An import that is resolved is one of the file, and it means another file that is present. -/
theorem mem_resolvedImports {s : Sources} {f : FileReading} {i : Import} {target : String} :
    (i, target) ∈ resolvedImports s f ↔
      i ∈ f.imports ∧ target ≠ f.path ∧
        Source.importedFile? s.paths.contains f.path i.moduleName = some target := by
  simp only [resolvedImports, List.mem_filterMap]
  constructor
  · rintro ⟨j, member, h⟩
    split at h
    · next found =>
      split at h
      · simp at h
      · next other =>
        obtain ⟨rfl, rfl⟩ := Prod.mk.inj (Option.some.inj h)
        exact ⟨member, other, found⟩
    · simp at h
  · rintro ⟨member, other, found⟩
    exact ⟨i, member, by simp [found, other]⟩

/-! ### Drawn edges -/

/-- The edges that are drawn, those of one id as often as they are. -/
def drawnEdges (files : List FileReading) (rule : CandidateRule) : List Edge :=
  (Sources.ofFiles files).files.flatMap declarationEdges ++
    (Sources.ofFiles files).files.flatMap (edgesOfFile (Sources.ofFiles files) rule)

/-- The edges that are drawn between the nodes of some files. -/
inductive Drawn (files : List FileReading) (rule : CandidateRule) : Edge → Prop where
  | declaration {f : FileReading} {n : Node} : f ∈ sortedFiles files → n ∈ f.symbols →
      Drawn files rule
        (Edge.make n.id f.id .definedIn declarationConfidence "declaration")
  | imported {f : FileReading} {i : Import} {target : String} : f ∈ sortedFiles files →
      (i, target) ∈ resolvedImports (Sources.ofFiles files) f →
      Drawn files rule
        (Edge.make f.id (Node.idOfFile target) .imports importConfidence "import-resolved")
  | supertype {f : FileReading} {d : Declaration} {name target : String} {kind : EdgeKind} :
      f ∈ sortedFiles files → d ∈ f.declarations →
      (name ∈ d.extended ∧ kind = .extends ∨ name ∈ d.implemented ∧ kind = .implements) →
      supertypeOf? (Sources.ofFiles files) ⟨f, f.symbols⟩
        (resolvedImports (Sources.ofFiles files) f) name = some target →
      target ≠ (f.symbol d).id →
      Drawn files rule
        (Edge.make (f.symbol d).id target kind supertypeConfidence "supertype")
  | call {f : FileReading} {c : Call} {target : String} {tier : CallTier} :
      f ∈ sortedFiles files → c ∈ f.calls →
      (target, tier) ∈ callTargets (Sources.ofFiles files) rule ⟨f, f.symbols⟩
        (resolvedImports (Sources.ofFiles files) f) c.callee →
      Drawn files rule
        (Edge.make (callerOf ⟨f, f.symbols⟩ c.line) target .calls tier.confidence tier.reason)

/-- An edge that a file draws to its supertypes is drawn, and no other. -/
theorem mem_supertypeEdges {s : Sources} {d : Declared} {resolved : List (Import × String)}
    {e : Edge} : e ∈ supertypeEdges s d resolved ↔
      ∃ declaration ∈ d.file.declarations, ∃ name kind target,
        (name ∈ declaration.extended ∧ kind = EdgeKind.extends ∨
          name ∈ declaration.implemented ∧ kind = EdgeKind.implements) ∧
        supertypeOf? s d resolved name = some target ∧
        target ≠ Node.idOfSymbol declaration.kind d.file.path declaration.name ∧
        e = Edge.make (Node.idOfSymbol declaration.kind d.file.path declaration.name) target kind
          supertypeConfidence "supertype" := by
  simp only [supertypeEdges, List.mem_flatMap, List.mem_filterMap, List.mem_append, List.mem_map]
  constructor
  · rintro ⟨declaration, member, ⟨name, kind⟩, listed, drawn⟩
    have reason : name ∈ declaration.extended ∧ kind = EdgeKind.extends ∨
        name ∈ declaration.implemented ∧ kind = EdgeKind.implements := by
      rcases listed with ⟨_, inList, same⟩ | ⟨_, inList, same⟩
      · obtain ⟨rfl, rfl⟩ := Prod.mk.inj same
        exact .inl ⟨inList, rfl⟩
      · obtain ⟨rfl, rfl⟩ := Prod.mk.inj same
        exact .inr ⟨inList, rfl⟩
    split at drawn
    · next target found =>
      split at drawn
      · simp at drawn
      · next proper =>
        exact ⟨declaration, member, name, kind, target, reason, found, proper,
          (Option.some.inj drawn).symm⟩
    · simp at drawn
  · rintro ⟨declaration, member, name, kind, target, reason, found, proper, rfl⟩
    refine ⟨declaration, member, (name, kind), ?_, by simp [found, proper]⟩
    rcases reason with ⟨inList, rfl⟩ | ⟨inList, rfl⟩
    · exact .inl ⟨name, inList, rfl⟩
    · exact .inr ⟨name, inList, rfl⟩

section

variable {files : List FileReading} (plain : ∀ f ∈ files, f.Plain)

include plain

/-- The edges from which those of a repository are taken are the drawn ones. -/
theorem mem_drawnEdges {rule : CandidateRule} {e : Edge} :
    e ∈ drawnEdges files rule ↔ Drawn files rule e := by
  rw [drawnEdges, Sources.ofFiles_files plain]
  simp only [List.mem_append, List.mem_flatMap, List.mem_map, exists_exists_and_eq_and,
    edgesOfFile, declarationEdges, importEdges, mem_supertypeEdges, callEdges]
  constructor
  · rintro (⟨f, inFiles, n, member, rfl⟩ | ⟨f, inFiles, (⟨⟨i, target⟩, member, rfl⟩ |
      ⟨d, declared, name, kind, target, reason, found, proper, rfl⟩) |
      ⟨c, called, ⟨target, tier⟩, found, rfl⟩⟩)
    · exact .declaration inFiles member
    · exact .imported inFiles member
    · exact .supertype inFiles declared reason found proper
    · exact .call inFiles called found
  · rintro (⟨inFiles, member⟩ | ⟨inFiles, member⟩ | ⟨inFiles, declared, reason, found, proper⟩ |
      ⟨inFiles, called, found⟩)
    · exact .inl ⟨_, inFiles, _, member, rfl⟩
    · exact .inr ⟨_, inFiles, .inl (.inl ⟨_, member, rfl⟩)⟩
    · exact .inr ⟨_, inFiles, .inl (.inr ⟨_, declared, _, _, _, reason, found, proper, rfl⟩)⟩
    · exact .inr ⟨_, inFiles, .inr ⟨_, called, _, found, rfl⟩⟩

theorem drawn_of_mem {rule : CandidateRule} {e : Edge}
    (member : e ∈ edges (Sources.ofFiles files) rule) : Drawn files rule e :=
  (mem_drawnEdges plain).mp ((distinctEdges_sublist _ _).subset member)

/-- Of every drawn edge between two nodes one with its id is among those of the repository. -/
theorem exists_mem_of_drawn {rule : CandidateRule} {e : Edge} (drawn : Drawn files rule e)
    (proper : e.source ≠ e.target) :
    ∃ e' ∈ edges (Sources.ofFiles files) rule, e'.id = e.id :=
  distinctEdges_covers ((mem_drawnEdges plain).mpr drawn) proper (by simp)

end

end Assembly

end CodeAtlas
