import CodeAtlas.Graph.Adjacency
import CodeAtlas.Scalar

/-!
Paths of calls from an entry point. Paths are extended breadth first by the callees that are not on
them yet, the most certain ones first; a path is finished when it can go on nowhere or is long
enough. After a number of steps the paths that are left are taken as they are.
-/

namespace CodeAtlas

namespace FlowTrace

/-- The calls on a path at most. -/
def mostCalls : Nat := 10

/-- The callees by which a path is extended at most. -/
def mostBranches : Nat := 4

/-- The least certainty of a call that is followed. -/
def leastCertainty : Float := 0.5

/-- The paths that are looked at, from one entry point, at most. -/
def mostSteps : Nat := 512

/-- A path of positions, from the entry point on. -/
abbrev Path := List Nat

/-- Keeps the first of several entries with the same position. -/
def firstTargets (seen : List Nat) : List (Nat × Float) → List (Nat × Float)
  | [] => []
  | (target, confidence) :: rest =>
    if seen.contains target then firstTargets seen rest
    else (target, confidence) :: firstTargets (target :: seen) rest

/-- What is kept has different positions, and none of those that were seen. -/
theorem nodup_firstTargets (seen : List Nat) (targets : List (Nat × Float)) :
    ((firstTargets seen targets).map (·.1)).Nodup ∧
      ∀ t ∈ (firstTargets seen targets).map (·.1), t ∉ seen := by
  fun_induction firstTargets seen targets with
  | case1 => simp
  | case2 => assumption
  | case3 seen target confidence rest new ih =>
    refine ⟨?_, ?_⟩
    · simp only [List.map_cons, List.nodup_cons]
      exact ⟨fun member => ih.2 target member List.mem_cons_self, ih.1⟩
    · intro t member
      rcases List.mem_cons.mp member with same | later
      · subst same
        simpa using new
      · exact fun old => ih.2 t later (List.mem_cons_of_mem _ old)

/-- The callees by which a path that ends at a position goes on. -/
def branches (ix : Adjacency) (position : Nat) (path : Path) : List Nat :=
  let callees := (ix.outgoing position [.calls]).filterMap fun (target, e) =>
    if decide (e.confidence < leastCertainty) || path.contains target then none
    else some (target, e.confidence)
  ((Scalar.ranked (·.2) (fun a b => decide (ix.idAt a.1 ≤ ix.idAt b.1))
    (firstTargets [] callees)).take mostBranches).map (·.1)

/-- A path goes on in a bounded number of ways. -/
theorem length_branches_le (ix : Adjacency) (position : Nat) (path : Path) :
    (branches ix position path).length ≤ mostBranches := by
  simp only [branches, List.length_map, List.length_take]
  exact Nat.min_le_left _ _

/-- The ways in which a path goes on. -/
def extensions (ix : Adjacency) (path : Path) : List Path :=
  match path.getLast? with
  | some last =>
    if mostCalls ≤ path.length - 1 then []
    else (branches ix last path).map fun target => path ++ [target]
  | none => []

/-- A path is extended by one position, and only as far as the depth allows. -/
theorem length_of_mem_extensions {ix : Adjacency} {path longer : Path}
    (h : longer ∈ extensions ix path) :
    longer.length = path.length + 1 ∧ longer.length ≤ mostCalls + 1 := by
  unfold extensions at h
  split at h
  · split at h
    · cases h
    · obtain ⟨target, _, rfl⟩ := List.mem_map.mp h
      have grown : (path ++ [target]).length = path.length + 1 := by simp
      exact ⟨grown, by omega⟩
  · cases h

/-- Looks at the paths of a queue, at most the given number of them; `finished` holds the paths that
are complete, backwards. -/
def explore (ix : Adjacency) : Nat → List Path → List Path → List Path
  | _, [], finished => finished.reverse
  | 0, path :: queue, finished => finished.reverse ++ path :: queue
  | n + 1, path :: queue, finished =>
    match extensions ix path with
    | [] => explore ix n queue (path :: finished)
    | longer => explore ix n (queue ++ longer) finished

/-- The paths from an entry point that have at least one call. -/
def pathsFrom (ix : Adjacency) (entry : Nat) : List Path :=
  (explore ix mostSteps [[entry]] []).filter (2 ≤ ·.length)

end FlowTrace

end CodeAtlas
