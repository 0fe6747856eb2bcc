import CodeAtlas.Proofs.Flow.Detect
import CodeAtlas.Proofs.Flow.Entry

/-!
# Flows see certain calls only

A path is extended by the calls that are certain enough, so that two structures with the same such
calls have the same paths. Which of the paths become flows does not depend on the order of the entry
points, as long as all of these are looked at.
-/

namespace CodeAtlas

namespace FlowTrace

/-- An edge is certain enough to be followed. -/
def isCertain (e : Edge) : Bool :=
  !decide (e.confidence < leastCertainty)

/-- Two structures have the same nodes, and the same certain calls leave each of them. -/
structure Alike (ix ix' : Adjacency) : Prop where
  nodes : ix.nodes = ix'.nodes
  calls : ∀ i, (ix.outgoing i [.calls]).filter (isCertain ·.2) =
    (ix'.outgoing i [.calls]).filter (isCertain ·.2)

section

variable {ix ix' : Adjacency} {nodes : List Node} {edges edges' : List Edge}

theorem Alike.of_edges (certain : edges.filter isCertain = edges'.filter isCertain) :
    Alike (Adjacency.ofParts nodes edges) (Adjacency.ofParts nodes edges') where
  nodes := rfl
  calls i := by rw [Adjacency.outgoing_filter, Adjacency.outgoing_filter, certain]

theorem Alike.idAt (alike : Alike ix ix') : ix.idAt = ix'.idAt := by
  funext i
  simp [Adjacency.idAt, Adjacency.node?, alike.nodes]

/-- The callees that a path can go on to are looked for among the certain calls. -/
theorem filterMap_callees (path : Path) (calls : List (Nat × Edge)) :
    (calls.filterMap fun (target, e) =>
        if decide (e.confidence < leastCertainty) || path.contains target then none
        else some (target, e.confidence)) =
      (calls.filter (isCertain ·.2)).filterMap fun (target, e) =>
        if path.contains target then none else some (target, e.confidence) := by
  rw [List.filterMap_filter]
  congr 1
  funext ⟨target, e⟩
  by_cases uncertain : e.confidence < leastCertainty
  · simp [isCertain, uncertain]
  · simp [isCertain, uncertain]

theorem Alike.branches (alike : Alike ix ix') (i : Nat) (path : Path) :
    branches ix i path = branches ix' i path := by
  unfold FlowTrace.branches
  simp only [filterMap_callees, alike.calls, alike.idAt]

theorem Alike.extensions (alike : Alike ix ix') (path : Path) :
    extensions ix path = extensions ix' path := by
  unfold FlowTrace.extensions
  simp only [alike.branches]

/-- The search leaves the same paths. -/
theorem Alike.explore (alike : Alike ix ix') (n : Nat) (queue finished : List Path) :
    explore ix n queue finished = explore ix' n queue finished := by
  induction n generalizing queue finished with
  | zero => cases queue <;> rfl
  | succ n ih =>
    cases queue with
    | nil => simp [FlowTrace.explore]
    | cons path queue =>
      rw [FlowTrace.explore, FlowTrace.explore, alike.extensions]
      cases FlowTrace.extensions ix' path with
      | nil => exact ih queue (path :: finished)
      | cons first others => exact ih (queue ++ first :: others) finished

theorem Alike.pathsFrom (alike : Alike ix ix') (entry : Nat) :
    pathsFrom ix entry = pathsFrom ix' entry := by
  rw [FlowTrace.pathsFrom, FlowTrace.pathsFrom, alike.explore]

end

end FlowTrace

namespace Flows

open FlowTrace

/-! ### Paths in any order -/

section

variable {nodes : List Node} {edges edges' : List Edge} {communities : List Community}

/-- Every position on a path is that of an id. -/
def Known (ix : Adjacency) (path : Path) : Prop :=
  ∀ i ∈ path, ∃ id, ix.position? id = some i

/-- Paths of known positions are told apart by their ids. -/
theorem Known.eq_of_ids {path path' : Path} (known : Known (Adjacency.ofParts nodes edges) path)
    (known' : Known (Adjacency.ofParts nodes edges) path')
    (same : path.map (Adjacency.ofParts nodes edges).idAt =
      path'.map (Adjacency.ofParts nodes edges).idAt) : path = path' := by
  have back : ∀ {path : Path}, Known (Adjacency.ofParts nodes edges) path →
      (path.map (Adjacency.ofParts nodes edges).idAt).map
        (Adjacency.ofParts nodes edges).position? = path.map some := by
    intro path known
    rw [List.map_map, List.map_inj_left]
    intro i member
    exact Adjacency.position?_idAt (known i member)
  apply List.map_injective_iff.mpr (Option.some_injective Nat)
  rw [← back known, ← back known', same]

/-- Which paths say something new does not depend on the order in which they come. -/
theorem distinctPaths_perm {paths paths' : List Path} (perm : paths.Perm paths')
    (known : ∀ path ∈ paths, Known (Adjacency.ofParts nodes edges) path) :
    distinctPaths (Adjacency.ofParts nodes edges) paths =
      distinctPaths (Adjacency.ofParts nodes edges) paths' := by
  have goes := pathBefore_goesBy (Adjacency.ofParts nodes edges)
  have sorted : paths.mergeSort (pathBefore (Adjacency.ofParts nodes edges)) =
      paths'.mergeSort (pathBefore (Adjacency.ofParts nodes edges)) := by
    apply Text.mergeSort_eq_of_perm (goes.trans fun _ _ _ => idsBefore_trans)
      (goes.total fun _ _ => idsBefore_total _ _) perm
    intro a inPaths b inPaths' before after
    obtain ⟨-, order, order'⟩ := goes.tied before after
    exact (known a inPaths).eq_of_ids (known b inPaths') (idsBefore_antisymm order order')
  rw [distinctPaths, distinctPaths, sorted]

theorem known_of_mem_tracedPaths {path : Path}
    (member : path ∈ tracedPaths (Adjacency.ofParts nodes edges)) :
    Known (Adjacency.ofParts nodes edges) path := by
  obtain ⟨⟨entry, score⟩, -, traced⟩ := List.mem_flatMap.mp member
  obtain ⟨walk, long⟩ := walk_of_mem_pathsFrom traced
  exact known_of_walk walk long

/-- The same certain calls give the same paths, if the same symbols call something and there are few
entry points. -/
theorem tracedPaths_perm {ix ix' : Adjacency} (alike : Alike ix ix')
    (calling : ∀ i, ix.outgoing i [.calls] = [] ↔ ix'.outgoing i [.calls] = [])
    (few : (EntryPoint.entries ix).length ≤ EntryPoint.mostEntries) :
    (tracedPaths ix).Perm (tracedPaths ix') := by
  have entries := EntryPoint.entries_congr alike.nodes calling
  have top := EntryPoint.top_perm few
  have top' := EntryPoint.top_perm (entries ▸ few)
  rw [entries] at top
  have paths : ∀ ix : Adjacency, tracedPaths ix =
      ((EntryPoint.top ix).map Prod.fst).flatMap (pathsFrom ix) := by
    intro ix
    rw [List.flatMap_map]
    rfl
  rw [paths, paths, ← funext alike.pathsFrom]
  exact (top.trans top'.symm).flatMap_right _

/-- The same certain calls give the same flows, if the same symbols call something and there are few
entry points. -/
theorem ofParts_congr (certain : edges.filter isCertain = edges'.filter isCertain)
    (calling : ∀ i, (Adjacency.ofParts nodes edges).outgoing i [.calls] = [] ↔
      (Adjacency.ofParts nodes edges').outgoing i [.calls] = [])
    (few : (EntryPoint.entries (Adjacency.ofParts nodes edges)).length ≤ EntryPoint.mostEntries) :
    ofParts nodes edges communities = ofParts nodes edges' communities := by
  have alike : Alike (Adjacency.ofParts nodes edges) (Adjacency.ofParts nodes edges') :=
    .of_edges certain
  have paths := distinctPaths_perm (tracedPaths_perm alike calling few)
    fun path => known_of_mem_tracedPaths
  have sorted : pathBefore (Adjacency.ofParts nodes edges) =
      pathBefore (Adjacency.ofParts nodes edges') := by
    funext a b
    rw [pathBefore, pathBefore, alike.idAt]
  have made : ofPath (Adjacency.ofParts nodes edges) =
      ofPath (Adjacency.ofParts nodes edges') := by
    funext communityOf number path
    rw [ofPath, ofPath, alike.idAt]
    rfl
  rw [ofParts_eq, ofParts_eq, paths, distinctPaths, sorted, made]
  rfl

end

end Flows

end CodeAtlas
