import CodeAtlas.Proofs.Flow.Certain
import CodeAtlas.Proofs.Flow.Tree

/-!
# Which paths become flows

The paths are gone through from the longest to the shortest. One that is left out has the ends of a
path that was kept before, or lies on a longer one that was kept; so the kept ones reach both ends of
every path, no two of them have the same ends, and none lies on another one. Flows tell their paths
by the ids along them.
-/

namespace CodeAtlas.Flows

open FlowTrace

/-! ### Paths that are kept -/

/-- What the kept ones of some paths are: the longer first, no two with the same ends, none on a longer
one; and every path has the ends of a kept one that is no shorter or lies on a longer kept one. -/
structure Reduces (paths kept : List Path) : Prop where
  lengths : kept.Pairwise fun a b => b.length ≤ a.length
  apart : kept.Pairwise fun a b => ends a ≠ ends b
  novel : ∀ a ∈ kept, ∀ b ∈ kept, subsumes a b = false
  covers : ∀ path ∈ paths, ∃ k ∈ kept,
    path.length ≤ k.length ∧ (ends k = ends path ∨ subsumes k path = true)

section

variable {kept paths : List Path} {path longer : Path} {i : Nat}

theorem subsumes_iff : subsumes longer path = true ↔ path.length < longer.length ∧ path ⊆ longer := by
  simp [subsumes, List.subset_def]

theorem keepDistinct_pairwise
    (earlier : kept.reverse.Pairwise fun a b => ends a ≠ ends b ∧ subsumes a b = false) :
    (keepDistinct kept paths).Pairwise fun a b => ends a ≠ ends b ∧ subsumes a b = false := by
  fun_induction keepDistinct kept paths with
  | case1 kept => exact earlier
  | case2 kept path rest sameEnds ih => exact ih earlier
  | case3 kept path rest differentEnds subsumed ih => exact ih earlier
  | case4 kept path rest differentEnds novel ih =>
    apply ih
    rw [List.reverse_cons, List.pairwise_append]
    refine ⟨earlier, List.pairwise_singleton _ _, ?_⟩
    intro a inKept b isPath
    rw [List.mem_singleton.mp isPath]
    have member := List.mem_reverse.mp inKept
    constructor
    · intro same
      exact differentEnds (List.any_eq_true.mpr ⟨a, member, beq_iff_eq.mpr same⟩)
    · rw [← Bool.not_eq_true]
      intro subsumed
      exact novel (List.any_eq_true.mpr ⟨a, member, subsumed⟩)

theorem mem_keepDistinct_of_kept (member : path ∈ kept) : path ∈ keepDistinct kept paths := by
  obtain ⟨new, whole, -⟩ := exists_keepDistinct kept paths
  rw [whole]
  exact List.mem_append_left _ (List.mem_reverse.mpr member)

/-- Whatever is left out was covered when it was looked at, and what covered it stays. -/
theorem keepDistinct_covers (sorted : paths.Pairwise fun a b => b.length ≤ a.length)
    (before : ∀ k ∈ kept, ∀ path ∈ paths, path.length ≤ k.length) :
    ∀ path ∈ paths, ∃ k ∈ keepDistinct kept paths,
      path.length ≤ k.length ∧ (ends k = ends path ∨ subsumes k path = true) := by
  fun_induction keepDistinct kept paths with
  | case1 kept => simp
  | case2 kept path rest sameEnds ih =>
    obtain ⟨-, sorted'⟩ := List.pairwise_cons.mp sorted
    refine List.forall_mem_cons.mpr ⟨?_, ih sorted' fun k member other later =>
      before k member other (List.mem_cons_of_mem _ later)⟩
    obtain ⟨k, member, same⟩ := List.any_eq_true.mp sameEnds
    exact ⟨k, mem_keepDistinct_of_kept member, before k member path List.mem_cons_self,
      .inl (beq_iff_eq.mp same)⟩
  | case3 kept path rest differentEnds subsumed ih =>
    obtain ⟨-, sorted'⟩ := List.pairwise_cons.mp sorted
    refine List.forall_mem_cons.mpr ⟨?_, ih sorted' fun k member other later =>
      before k member other (List.mem_cons_of_mem _ later)⟩
    obtain ⟨k, member, onLonger⟩ := List.any_eq_true.mp subsumed
    exact ⟨k, mem_keepDistinct_of_kept member, before k member path List.mem_cons_self,
      .inr onLonger⟩
  | case4 kept path rest differentEnds novel ih =>
    obtain ⟨first, sorted'⟩ := List.pairwise_cons.mp sorted
    refine List.forall_mem_cons.mpr ⟨?_, ih sorted' ?_⟩
    · exact ⟨path, mem_keepDistinct_of_kept List.mem_cons_self, le_rfl, .inl rfl⟩
    · intro k member other later
      rcases List.mem_cons.mp member with rfl | old
      · exact first other later
      · exact before k old other (List.mem_cons_of_mem _ later)

theorem distinctPaths_reduces (ix : Adjacency) (paths : List Path) :
    Reduces paths (distinctPaths ix paths) := by
  have lengths := distinctPaths_lengths ix paths
  have kept : (distinctPaths ix paths).Pairwise fun a b => ends a ≠ ends b ∧ subsumes a b = false :=
    keepDistinct_pairwise List.Pairwise.nil
  have sorted : (paths.mergeSort (pathBefore ix)).Pairwise fun a b => b.length ≤ a.length :=
    (pathBefore_goesBy ix).sorted_keys (fun _ _ _ => idsBefore_trans)
      (fun _ _ => idsBefore_total _ _) paths
  refine ⟨lengths, kept.imp And.left, ?_, ?_⟩
  · intro a inKept b inKept'
    -- of two kept paths the longer one comes first
    have symmetric : Std.Symm fun a b : Path => subsumes a b = false ∧ subsumes b a = false :=
      ⟨fun _ _ both => both.symm⟩
    have both : (distinctPaths ix paths).Pairwise fun a b =>
        subsumes a b = false ∧ subsumes b a = false := by
      refine (lengths.and kept).imp ?_
      rintro a b ⟨shorter, -, novel⟩
      refine ⟨novel, Bool.eq_false_iff.mpr fun later => ?_⟩
      exact absurd (subsumes_iff.mp later).1 shorter.not_gt
    by_cases same : a = b
    · rw [same]
      exact Bool.eq_false_iff.mpr fun self => lt_irrefl _ (subsumes_iff.mp self).1
    · exact (both.forall inKept inKept' same).1
  · intro path member
    exact keepDistinct_covers sorted (by simp) path (List.mem_mergeSort.mpr member)

/-- The first ones of the kept paths include every kept path that is longer than one of them. -/
theorem Reduces.mem_take (reduces : Reduces paths kept) {n : Nat} (first : path ∈ kept.take n)
    (member : longer ∈ kept) (less : path.length < longer.length) : longer ∈ kept.take n := by
  have lengths := reduces.lengths
  rw [← List.take_append_drop n kept] at member lengths
  rcases List.mem_append.mp member with here | later
  · exact here
  · have order := (List.pairwise_append.mp lengths).2.2 path first longer later
    omega

end

/-! ### Flows and their paths -/

/-- The paths that become flows. -/
def flowPaths (ix : Adjacency) : List Path :=
  (distinctPaths ix (tracedPaths ix)).take maxFlows

/-- The ids along the paths that are traced from the best entry points. -/
def tracedSteps (nodes : List Node) (edges : List Edge) : List (List String) :=
  (tracedPaths (Adjacency.ofParts nodes edges)).map fun path =>
    path.map (Adjacency.ofParts nodes edges).idAt

section

variable {nodes : List Node} {edges : List Edge} {communities : List Community} {f : Flow}
  {path path' : Path} {i j : Nat}

theorem mem_ofParts (member : f ∈ ofParts nodes edges communities) :
    ∃ path ∈ flowPaths (Adjacency.ofParts nodes edges), ∃ n, f = ofPath
      (Adjacency.ofParts nodes edges) ((Communities.membership communities)[·]?) n path := by
  rw [ofParts_eq] at member
  obtain ⟨⟨path, n⟩, listed, rfl⟩ := List.mem_map.mp member
  exact ⟨path, List.fst_mem_of_mem_zipIdx listed, n, rfl⟩

/-- Every path that is kept, within the limit, is that of a flow. -/
theorem exists_flow (communities : List Community)
    (member : path ∈ flowPaths (Adjacency.ofParts nodes edges)) :
    ∃ f ∈ ofParts nodes edges communities,
      f.steps = path.map (Adjacency.ofParts nodes edges).idAt ∧ f.stepCount = path.length := by
  obtain ⟨n, found⟩ := List.getElem?_of_mem member
  refine ⟨ofPath (Adjacency.ofParts nodes edges) ((Communities.membership communities)[·]?) n path,
    ?_, rfl, List.length_map (Adjacency.ofParts nodes edges).idAt⟩
  have listed : (path, n) ∈ (flowPaths (Adjacency.ofParts nodes edges)).zipIdx :=
    List.mem_zipIdx_iff_getElem?.mpr found
  rw [ofParts_eq]
  exact List.mem_map.mpr ⟨_, listed, rfl⟩

theorem flowPaths_subset (ix : Adjacency) : flowPaths ix ⊆ tracedPaths ix := by
  intro path member
  have kept := List.mem_of_mem_take member
  exact List.mem_mergeSort.mp ((distinctPaths_sublist ix _).subset kept)

theorem ne_nil_of_mem_tracedPaths {ix : Adjacency} (member : path ∈ tracedPaths ix) : path ≠ [] := by
  obtain ⟨⟨entry, score⟩, -, traced⟩ := List.mem_flatMap.mp member
  have long := (walk_of_mem_pathsFrom traced).2
  exact List.ne_nil_of_length_pos (by omega)

theorem nodup_of_mem_tracedPaths {ix : Adjacency} (member : path ∈ tracedPaths ix) : path.Nodup := by
  obtain ⟨⟨entry, score⟩, -, traced⟩ := List.mem_flatMap.mp member
  exact (walk_of_mem_pathsFrom traced).1.once

/-- Known positions are told apart by their ids. -/
theorem idAt_inj (known : ∃ id, (Adjacency.ofParts nodes edges).position? id = some i)
    (known' : ∃ id, (Adjacency.ofParts nodes edges).position? id = some j) :
    (Adjacency.ofParts nodes edges).idAt i = (Adjacency.ofParts nodes edges).idAt j ↔ i = j := by
  refine ⟨fun same => ?_, congrArg _⟩
  have back := congrArg (Adjacency.ofParts nodes edges).position? same
  rw [Adjacency.position?_idAt known, Adjacency.position?_idAt known'] at back
  exact Option.some.inj back

theorem Known.ids_subset_iff (known : Known (Adjacency.ofParts nodes edges) path)
    (known' : Known (Adjacency.ofParts nodes edges) path') :
    path.map (Adjacency.ofParts nodes edges).idAt ⊆ path'.map (Adjacency.ofParts nodes edges).idAt ↔
      path ⊆ path' := by
  constructor
  · intro subset i member
    obtain ⟨j, member', same⟩ := List.mem_map.mp (subset (List.mem_map_of_mem member))
    rwa [(idAt_inj (known i member) (known' j member')).mp same.symm]
  · exact List.map_subset _

theorem mem_ends (nonempty : path ≠ []) :
    path.head? = some (ends path).1 ∧ path.getLast? = some (ends path).2 ∧ (ends path).1 ∈ path ∧
      (ends path).2 ∈ path := by
  have first : path.head? = some (ends path).1 := by
    rw [ends, List.headD_eq_head?_getD, List.head?_eq_some_head nonempty, Option.getD_some]
  have last : path.getLast? = some (ends path).2 := by
    rw [ends, List.getLastD_eq_getLast?, List.getLast?_eq_some_getLast nonempty, Option.getD_some]
  exact ⟨first, last, List.mem_of_mem_head? first, List.mem_of_getLast? last⟩

/-- Paths of known positions have the same ends if the ids of these are the same. -/
theorem ends_eq_iff (known : Known (Adjacency.ofParts nodes edges) path)
    (known' : Known (Adjacency.ofParts nodes edges) path') (nonempty : path ≠ [])
    (nonempty' : path' ≠ []) : ends path = ends path' ↔
      (Adjacency.ofParts nodes edges).idAt (ends path).1 =
          (Adjacency.ofParts nodes edges).idAt (ends path').1 ∧
        (Adjacency.ofParts nodes edges).idAt (ends path).2 =
          (Adjacency.ofParts nodes edges).idAt (ends path').2 := by
  obtain ⟨-, -, first, last⟩ := mem_ends nonempty
  obtain ⟨-, -, first', last'⟩ := mem_ends nonempty'
  rw [idAt_inj (known _ first) (known' _ first'), idAt_inj (known _ last) (known' _ last')]
  exact Prod.ext_iff

theorem mem_tracedSteps {steps : List String} (member : steps ∈ tracedSteps nodes edges) :
    ∃ path ∈ tracedPaths (Adjacency.ofParts nodes edges),
      Known (Adjacency.ofParts nodes edges) path ∧ path ≠ [] ∧
        steps = path.map (Adjacency.ofParts nodes edges).idAt := by
  obtain ⟨path, traced, rfl⟩ := List.mem_map.mp member
  exact ⟨path, traced, known_of_mem_tracedPaths traced, ne_nil_of_mem_tracedPaths traced, rfl⟩

/-- No two flows have the same ends. -/
theorem ofParts_ends (nodes : List Node) (edges : List Edge) (communities : List Community) :
    (ofParts nodes edges communities).Pairwise fun f g =>
      (f.entryPoint, f.terminalPoint) ≠ (g.entryPoint, g.terminalPoint) := by
  have apart := ((distinctPaths_reduces (Adjacency.ofParts nodes edges)
    (tracedPaths (Adjacency.ofParts nodes edges))).apart).sublist (List.take_sublist maxFlows _)
  rw [ofParts_eq, List.pairwise_map]
  rw [← List.zipIdx_map_fst 0 (List.take maxFlows _), List.pairwise_map] at apart
  refine apart.imp_of_mem ?_
  rintro ⟨path, n⟩ ⟨path', n'⟩ listed listed' different same
  have traced := flowPaths_subset _ (List.fst_mem_of_mem_zipIdx listed)
  have traced' := flowPaths_subset _ (List.fst_mem_of_mem_zipIdx listed')
  apply different
  exact (ends_eq_iff (known_of_mem_tracedPaths traced) (known_of_mem_tracedPaths traced')
    (ne_nil_of_mem_tracedPaths traced) (ne_nil_of_mem_tracedPaths traced')).mpr (Prod.mk.inj same)

/-- The steps of no flow are some, and not all, of those of another one. -/
theorem ofParts_incomparable {f g : Flow} (inFlows : f ∈ ofParts nodes edges communities)
    (inFlows' : g ∈ ofParts nodes edges communities) : ¬ f.steps.toFinset ⊂ g.steps.toFinset := by
  obtain ⟨path, kept, n, rfl⟩ := mem_ofParts inFlows
  obtain ⟨path', kept', n', rfl⟩ := mem_ofParts inFlows'
  have traced := flowPaths_subset _ kept
  have traced' := flowPaths_subset _ kept'
  have known := known_of_mem_tracedPaths traced
  have known' := known_of_mem_tracedPaths traced'
  have novel := (distinctPaths_reduces _ _).novel path' (List.mem_of_mem_take kept') path
    (List.mem_of_mem_take kept)
  rintro ⟨inside, proper⟩
  have ids : path.map (Adjacency.ofParts nodes edges).idAt ⊆
      path'.map (Adjacency.ofParts nodes edges).idAt := by
    intro id member
    exact List.mem_toFinset.mp (inside (List.mem_toFinset.mpr member))
  have subset := (known.ids_subset_iff known').mp ids
  -- as paths have no repetition, the longer one has a position more
  have order : path.length < path'.length := by
    by_contra notLess
    have same := (List.subperm_of_subset (nodup_of_mem_tracedPaths traced) subset).perm_of_length_le
      (Nat.le_of_not_lt notLess)
    apply proper
    intro id member
    have back := (same.map (Adjacency.ofParts nodes edges).idAt).symm.subset
      (List.mem_toFinset.mp member)
    exact List.mem_toFinset.mpr back
  rw [subsumes_iff.mpr ⟨order, subset⟩] at novel
  cases novel

/-- A flow is no shorter than a path with the same ends, unless this one lies on a longer flow. -/
theorem ofParts_longest {f : Flow} (inFlows : f ∈ ofParts nodes edges communities)
    {steps : List String} (listed : steps ∈ tracedSteps nodes edges)
    (first : steps.head? = some f.entryPoint) (last : steps.getLast? = some f.terminalPoint)
    (alone : ∀ g ∈ ofParts nodes edges communities, steps.length < g.stepCount → ¬ steps ⊆ g.steps) :
    steps.length ≤ f.stepCount := by
  obtain ⟨path', kept, n, rfl⟩ := mem_ofParts inFlows
  obtain ⟨path, traced, known, nonempty, rfl⟩ := mem_tracedSteps listed
  have traced' := flowPaths_subset _ kept
  have nonempty' := ne_nil_of_mem_tracedPaths traced'
  have reduces := distinctPaths_reduces (Adjacency.ofParts nodes edges)
    (tracedPaths (Adjacency.ofParts nodes edges))
  obtain ⟨headIs, lastIs, -, -⟩ := mem_ends nonempty
  rw [List.head?_map, headIs, Option.map_some] at first
  rw [List.getLast?_map, lastIs, Option.map_some] at last
  have sameEnds : ends path = ends path' :=
    (ends_eq_iff known (known_of_mem_tracedPaths traced') nonempty nonempty').mpr
      ⟨Option.some.inj first, Option.some.inj last⟩
  show (path.map _).length ≤ (path'.map _).length
  rw [List.length_map, List.length_map]
  by_contra less
  obtain ⟨k, inKept, noShorter, sameEnds' | subsumed⟩ := reduces.covers path traced
  · -- two kept paths would have the same ends
    have different : k ≠ path' := by
      rintro rfl
      exact less noShorter
    have symmetric : Std.Symm fun a b : Path => ends a ≠ ends b := ⟨fun _ _ apart => apart.symm⟩
    exact reduces.apart.forall inKept (List.mem_of_mem_take kept) different
      (sameEnds'.trans sameEnds)
  · obtain ⟨longer, subset⟩ := subsumes_iff.mp subsumed
    have within := reduces.mem_take kept inKept (Nat.lt_of_not_le less |>.trans longer)
    obtain ⟨g, inFlows, steps, count⟩ := exists_flow communities within
    refine alone g inFlows ?_ ?_
    · rwa [List.length_map, count]
    · rw [steps]
      exact List.map_subset _ subset

/-- If there are fewer flows than there may be, both ends of every path are on one of them. -/
theorem ofParts_reaches (few : (ofParts nodes edges communities).length < maxFlows)
    {steps : List String} (listed : steps ∈ tracedSteps nodes edges) :
    ∃ f ∈ ofParts nodes edges communities, ∃ first last, steps.head? = some first ∧
      steps.getLast? = some last ∧ first ∈ f.steps ∧ last ∈ f.steps := by
  obtain ⟨path, traced, known, nonempty, rfl⟩ := mem_tracedSteps listed
  have reduces := distinctPaths_reduces (Adjacency.ofParts nodes edges)
    (tracedPaths (Adjacency.ofParts nodes edges))
  obtain ⟨k, inKept, -, covered⟩ := reduces.covers path traced
  have all : k ∈ flowPaths (Adjacency.ofParts nodes edges) := by
    rw [ofParts_eq, List.length_map, List.length_zipIdx, List.length_take] at few
    rw [flowPaths, List.take_of_length_le (by omega)]
    exact inKept
  obtain ⟨f, inFlows, steps, -⟩ := exists_flow communities all
  obtain ⟨first, last, firstIn, lastIn⟩ := mem_ends nonempty
  have reached : (ends path).1 ∈ k ∧ (ends path).2 ∈ k := by
    rcases covered with same | subsumed
    · obtain ⟨-, -, firstIn, lastIn⟩ := mem_ends
        (ne_nil_of_mem_tracedPaths (flowPaths_subset _ all))
      rw [← same]
      exact ⟨firstIn, lastIn⟩
    · have subset := (subsumes_iff.mp subsumed).2
      exact ⟨subset firstIn, subset lastIn⟩
  refine ⟨f, inFlows, (Adjacency.ofParts nodes edges).idAt (ends path).1,
    (Adjacency.ofParts nodes edges).idAt (ends path).2, ?_, ?_, ?_⟩
  · rw [List.head?_map, first, Option.map_some]
  · rw [List.getLast?_map, last, Option.map_some]
  · rw [steps]
    exact ⟨List.mem_map_of_mem reached.1, List.mem_map_of_mem reached.2⟩

/-- A certain call of another node, seen from the position of the node that calls. -/
theorem follows_of_call (ids : (nodes.map Node.id).Nodup) (inside : i < nodes.length) {e : Edge}
    (listed : e ∈ edges) (kind : e.kind = .calls)
    (source : e.source = (Adjacency.ofParts nodes edges).idAt i) (proper : e.target ≠ e.source)
    (known : e.target ∈ nodes.map Node.id) (certain : 0.5 ≤ e.confidence) :
    ∃ target ≠ i, Follows (Adjacency.ofParts nodes edges) i target := by
  obtain ⟨j, target⟩ : ∃ j, (Adjacency.ofParts nodes edges).position? e.target = some j :=
    Adjacency.exists_position?_iff.mpr known
  have here : (Adjacency.ofParts nodes edges).position? e.source = some i := by
    rw [source]
    exact Adjacency.position?_idAt
      ⟨_, Adjacency.position?_of_getElem? ids (List.getElem?_eq_getElem inside)⟩
  obtain ⟨half, number⟩ := Double.number_of_le certain
  refine ⟨j, ?_, e, Adjacency.mem_outgoing.mpr ⟨listed, by simp [kind], here, target⟩,
    (Double.not_lt_iff number half).mpr certain⟩
  rintro rfl
  exact proper (Adjacency.position?_inj target here)

/-- If there are fewer flows than there may be, each of the best entry points that certainly calls
another node is on one of them. -/
theorem ofParts_entries (few : (ofParts nodes edges communities).length < maxFlows) {c : Nat × Float}
    (best : c ∈ EntryPoint.top (Adjacency.ofParts nodes edges))
    (calls : ∃ target ≠ c.1, Follows (Adjacency.ofParts nodes edges) c.1 target) :
    ∃ f ∈ ofParts nodes edges communities, (Adjacency.ofParts nodes edges).idAt c.1 ∈ f.steps := by
  obtain ⟨path, found⟩ := List.exists_mem_of_ne_nil _ (pathsFrom_ne_nil calls)
  have traced : path ∈ tracedPaths (Adjacency.ofParts nodes edges) :=
    List.mem_flatMap.mpr ⟨c, best, found⟩
  obtain ⟨f, inFlows, first, last, head, -, firstIn, -⟩ :=
    ofParts_reaches few (List.mem_map_of_mem traced)
  have start := (walk_of_mem_pathsFrom found).1.start
  rw [List.head?_map, start, Option.map_some] at head
  rw [Option.some.inj head]
  exact ⟨f, inFlows, firstIn⟩

theorem lt_of_mem_top {c : Nat × Float} (best : c ∈ EntryPoint.top (Adjacency.ofParts nodes edges)) :
    c.1 < nodes.length := by
  obtain ⟨n, here, -⟩ := callable_of_mem_top best
  have there : nodes[c.1]? = some n := by
    simpa [Adjacency.node?, Adjacency.ofParts] using here
  exact (List.getElem?_eq_some_iff.mp there).1

/-- Flows are told apart by their ends, none has some only of the steps of another one, and none is
shorter than a path with its ends that does not lie on a longer flow. If there are fewer of them than
there may be, both ends of every path are on one flow, and so is each of the best entry points that
certainly calls another node. -/
theorem ofParts_distinct {nodes : List Node} (ids : (nodes.map Node.id).Nodup) (edges : List Edge)
    (communities : List Community) :
    ((ofParts nodes edges communities).Pairwise fun f g =>
        (f.entryPoint, f.terminalPoint) ≠ (g.entryPoint, g.terminalPoint)) ∧
      (∀ f ∈ ofParts nodes edges communities, ∀ g ∈ ofParts nodes edges communities,
        ¬ f.steps.toFinset ⊂ g.steps.toFinset) ∧
      (∀ f ∈ ofParts nodes edges communities, ∀ steps ∈ tracedSteps nodes edges,
        steps.head? = some f.entryPoint → steps.getLast? = some f.terminalPoint →
        (∀ g ∈ ofParts nodes edges communities, steps.length < g.stepCount → ¬ steps ⊆ g.steps) →
        steps.length ≤ f.stepCount) ∧
      ((ofParts nodes edges communities).length < 75 →
        (∀ steps ∈ tracedSteps nodes edges, ∃ f ∈ ofParts nodes edges communities, ∃ first last,
          steps.head? = some first ∧ steps.getLast? = some last ∧ first ∈ f.steps ∧
            last ∈ f.steps) ∧
        ∀ c ∈ EntryPoint.top (Adjacency.ofParts nodes edges),
          (∃ e ∈ edges, e.kind = .calls ∧ e.source = (Adjacency.ofParts nodes edges).idAt c.1 ∧
            e.target ≠ e.source ∧ e.target ∈ nodes.map Node.id ∧ 0.5 ≤ e.confidence) →
          ∃ f ∈ ofParts nodes edges communities,
            (Adjacency.ofParts nodes edges).idAt c.1 ∈ f.steps) := by
  refine ⟨ofParts_ends nodes edges communities, ?_, ?_, ?_⟩
  · intro f inFlows g inFlows'
    exact ofParts_incomparable inFlows inFlows'
  · intro f inFlows steps traced first last alone
    exact ofParts_longest inFlows traced first last alone
  · intro few
    refine ⟨fun steps traced => ofParts_reaches few traced, ?_⟩
    rintro c best ⟨e, listed, kind, source, proper, known, certain⟩
    exact ofParts_entries few best
      (follows_of_call ids (lt_of_mem_top best) listed kind source proper known certain)

/-- A path on a longer one: what `main` calls is an entry point too. -/
theorem ofParts_distinct_chain :
    let main := Node.ofSymbol .function "main" "a.py" "python" 1 2
    let handle := Node.ofSymbol .function "handleRequest" "a.py" "python" 3 4
    let save := Node.ofSymbol .function "save" "a.py" "python" 5 6
    let edges := [Edge.make main.id handle.id .calls 0.85 "same-file",
      Edge.make handle.id save.id .calls 0.85 "same-file"]
    ([main, handle, save].map Node.id).Nodup ∧
      ∀ f ∈ ofParts [main, handle, save] edges [], ∀ g ∈ ofParts [main, handle, save] edges [],
        ¬ f.steps.toFinset ⊂ g.steps.toFinset := by
  intro main handle save edges
  have ids : ([main, handle, save].map Node.id).Nodup := by decide
  exact ⟨ids, (ofParts_distinct ids edges []).2.1⟩

end

end CodeAtlas.Flows
