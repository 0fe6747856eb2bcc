import CodeAtlas.Flow.Trace
import CodeAtlas.Proofs.Graph.Adjacency
import Mathlib.Data.List.Chain
import Mathlib.Data.List.Nodup

/-!
# Paths from an entry point

A path that is extended stays a walk along calls that are certain enough, without repetition and not
too long, and it keeps its beginning. The search for paths is a loop over a queue: each turn looks at
one path and may put a few longer ones at the end. Only a bounded number of turns does so, and every
other turn shortens the queue, so that the loop ends on every graph.
-/

namespace CodeAtlas.FlowTrace

/-! ### Walks -/

section

variable {ix : Adjacency} {i j : Nat} {path longer : Path}

/-- A call that is certain enough leads from one position to another one. -/
def Follows (ix : Adjacency) (i j : Nat) : Prop :=
  ∃ e, (j, e) ∈ ix.outgoing i [.calls] ∧ ¬ e.confidence < leastCertainty

/-- A path along calls without repetition. -/
structure Walk (ix : Adjacency) (entry : Nat) (path : Path) : Prop where
  start : path.head? = some entry
  once : path.Nodup
  chain : path.IsChain (Follows ix)
  length : path.length ≤ mostCalls + 1

theorem walk_singleton (ix : Adjacency) (entry : Nat) : Walk ix entry [entry] :=
  ⟨rfl, List.nodup_singleton entry, List.isChain_singleton entry, Nat.le_add_left 1 _⟩

theorem firstTargets_sublist (seen : List Nat) (targets : List (Nat × Float)) :
    (firstTargets seen targets).Sublist targets := by
  fun_induction firstTargets seen targets with
  | case1 => exact List.Sublist.refl _
  | case2 seen target confidence rest old ih => exact ih.trans (List.sublist_cons_self _ _)
  | case3 seen target confidence rest new ih => exact ih.cons_cons _

/-- The callees that a path can go on to, with their certainties. -/
def callees (ix : Adjacency) (i : Nat) (path : Path) : List (Nat × Float) :=
  (ix.outgoing i [.calls]).filterMap fun (target, e) =>
    if decide (e.confidence < leastCertainty) || path.contains target then none
    else some (target, e.confidence)

theorem branches_eq (ix : Adjacency) (i : Nat) (path : Path) : branches ix i path =
    ((Scalar.ranked (·.2) (fun a b => decide (ix.idAt a.1 ≤ ix.idAt b.1))
      (firstTargets [] (callees ix i path))).take mostBranches).map (·.1) :=
  rfl

/-- The callees are called certainly enough and are not on the path. -/
theorem mem_callees {x : Nat × Float} : x ∈ callees ix i path ↔ ∃ e,
    (x.1, e) ∈ ix.outgoing i [.calls] ∧ ¬ e.confidence < leastCertainty ∧ x.1 ∉ path ∧
      e.confidence = x.2 := by
  constructor
  · intro member
    obtain ⟨⟨target, e⟩, leaving, kept⟩ := List.mem_filterMap.mp member
    dsimp only at kept
    split at kept
    · cases kept
    · next passes =>
      obtain rfl := Option.some.inj kept
      rw [Bool.or_eq_true, not_or, decide_eq_true_eq, List.contains_iff_mem] at passes
      exact ⟨e, leaving, passes.1, passes.2, rfl⟩
  · rintro ⟨e, leaving, certain, new, confidence⟩
    refine List.mem_filterMap.mpr ⟨(x.1, e), leaving, ?_⟩
    have kept : (x.1, e.confidence) = x := Prod.ext rfl confidence
    simp [certain, new, kept]

/-- A path goes on by calls that are certain enough, to positions that are not on it. -/
theorem follows_of_mem_branches (member : j ∈ branches ix i path) : Follows ix i j ∧ j ∉ path := by
  rw [branches_eq] at member
  obtain ⟨x, chosen, rfl⟩ := List.mem_map.mp member
  have ranked := List.mem_of_mem_take chosen
  rw [Scalar.ranked, List.mem_mergeSort] at ranked
  obtain ⟨e, leaving, certain, new, -⟩ := mem_callees.mp ((firstTargets_sublist _ _).subset ranked)
  exact ⟨⟨e, leaving, certain⟩, new⟩

theorem Walk.extend {entry : Nat} (walk : Walk ix entry path) (member : longer ∈ extensions ix path) :
    Walk ix entry longer := by
  obtain ⟨-, depth⟩ := length_of_mem_extensions member
  unfold extensions at member
  split at member
  · next last atEnd =>
    split at member
    · cases member
    · obtain ⟨target, branch, rfl⟩ := List.mem_map.mp member
      obtain ⟨follows, new⟩ := follows_of_mem_branches branch
      refine ⟨?_, ?_, ?_, depth⟩
      · rw [List.head?_append, walk.start, Option.some_or]
      · rw [List.nodup_append]
        refine ⟨walk.once, List.nodup_singleton target, ?_⟩
        rintro i onPath j isTarget rfl
        exact new (List.mem_singleton.mp isTarget ▸ onPath)
      · rw [List.isChain_append]
        refine ⟨walk.chain, List.isChain_singleton target, ?_⟩
        intro i isLast j isTarget
        rw [atEnd, Option.mem_some_iff] at isLast
        rw [List.head?_cons, Option.mem_some_iff] at isTarget
        rwa [← isLast, ← isTarget]
  · cases member

/-- What holds of all paths of a queue and of their extensions holds of all that come out. -/
theorem explore_all {P : Path → Prop} (extend : ∀ path, P path → ∀ longer ∈ extensions ix path, P longer)
    (n : Nat) (queue finished : List Path) (inQueue : ∀ path ∈ queue, P path)
    (done : ∀ path ∈ finished, P path) : ∀ path ∈ explore ix n queue finished, P path := by
  fun_induction explore ix n queue finished with
  | case1 n finished =>
    intro path member
    exact done path (List.mem_reverse.mp member)
  | case2 finished path queue =>
    intro path' member
    rcases List.mem_append.mp member with old | left
    · exact done path' (List.mem_reverse.mp old)
    · exact inQueue path' left
  | case3 finished n path queue stops ih =>
    obtain ⟨here, others⟩ := List.forall_mem_cons.mp inQueue
    exact ih others (List.forall_mem_cons.mpr ⟨here, done⟩)
  | case4 n path queue finished goesOn ih =>
    obtain ⟨here, others⟩ := List.forall_mem_cons.mp inQueue
    refine ih ?_ done
    intro path' member
    rcases List.mem_append.mp member with old | new
    · exact others path' old
    · exact extend path here path' new

theorem walk_of_mem_pathsFrom {entry : Nat} (member : path ∈ pathsFrom ix entry) :
    Walk ix entry path ∧ 2 ≤ path.length := by
  obtain ⟨found, long⟩ := List.mem_filter.mp member
  refine ⟨?_, of_decide_eq_true long⟩
  refine explore_all (fun path walk longer => walk.extend) _ _ _ ?_ ?_ path found
  · intro path' single
    rw [List.mem_singleton.mp single]
    exact walk_singleton ix entry
  · intro path' absurd
    cases absurd

end

/-! ### The loop -/

/-- The state of the search: how many paths have been looked at, those that wait, and those that are
complete, backwards. -/
structure Tracing where
  looked : Nat
  queue : List Path
  finished : List Path

/-- A turn of the loop takes the first path that waits; there is none where no path waits. When
enough paths have been looked at, the others are complete as they are. -/
def Tracing.turn (ix : Adjacency) (t : Tracing) : Option Tracing :=
  match t.queue with
  | [] => none
  | path :: queue =>
    if mostSteps ≤ t.looked then some ⟨t.looked, queue, path :: t.finished⟩
    else
      match extensions ix path with
      | [] => some ⟨t.looked + 1, queue, path :: t.finished⟩
      | longer => some ⟨t.looked + 1, queue ++ longer, t.finished⟩

/-- The loop ends after a number of turns, with some complete paths. -/
inductive Tracing.Ends (ix : Adjacency) : Nat → Tracing → List Path → Prop
  | empty {t : Tracing} (none : t.turn ix = none) : Ends ix 0 t t.finished.reverse
  | turn {n : Nat} {t t' : Tracing} {paths : List Path} (next : t.turn ix = some t')
      (rest : Ends ix n t' paths) : Ends ix (n + 1) t paths

/-- When enough paths have been looked at, every turn shortens the queue. -/
theorem Tracing.ends_of_enough (ix : Adjacency) (looked : Nat) (enough : mostSteps ≤ looked)
    (queue finished : List Path) :
    Ends ix queue.length ⟨looked, queue, finished⟩ (finished.reverse ++ queue) := by
  induction queue generalizing finished with
  | nil =>
    rw [List.append_nil]
    exact .empty rfl
  | cons path queue ih =>
    have next : (Tracing.mk looked (path :: queue) finished).turn ix =
        some ⟨looked, queue, path :: finished⟩ := if_pos enough
    have rest := ih (path :: finished)
    rw [List.reverse_cons, List.append_assoc, List.singleton_append] at rest
    exact .turn next rest

theorem length_extensions_le (ix : Adjacency) (path : Path) :
    (extensions ix path).length ≤ mostBranches := by
  unfold extensions
  split
  · split
    · exact Nat.zero_le _
    · rw [List.length_map]
      exact length_branches_le ix _ path
  · exact Nat.zero_le _

/-- The loop ends: each of the turns that are left may lengthen the queue by a few paths, and every
path that waits takes one turn. -/
theorem Tracing.exists_ends (ix : Adjacency) (left looked : Nat) (sum : looked + left = mostSteps)
    (queue finished : List Path) :
    ∃ n ≤ queue.length + mostBranches * left,
      Ends ix n ⟨looked, queue, finished⟩ (explore ix left queue finished) := by
  induction left generalizing looked queue finished with
  | zero =>
    refine ⟨queue.length, Nat.le_add_right _ _, ?_⟩
    have ends := ends_of_enough ix looked sum.ge queue finished
    cases queue with
    | nil => simpa [explore] using ends
    | cons path queue => exact ends
  | succ left ih =>
    cases queue with
    | nil => exact ⟨0, Nat.zero_le _, .empty rfl⟩
    | cons path queue =>
      have few := length_extensions_le ix path
      have looking : ¬ mostSteps ≤ looked := by omega
      cases found : extensions ix path with
      | nil =>
        have next : (Tracing.mk looked (path :: queue) finished).turn ix =
            some ⟨looked + 1, queue, path :: finished⟩ := by
          simp only [turn, if_neg looking, found]
        obtain ⟨n, bound, rest⟩ := ih (looked + 1) (by omega) queue (path :: finished)
        refine ⟨n + 1, ?_, ?_⟩
        · rw [List.length_cons, Nat.mul_succ]
          omega
        · rw [explore, found]
          exact .turn next rest
      | cons first others =>
        have next : (Tracing.mk looked (path :: queue) finished).turn ix =
            some ⟨looked + 1, queue ++ first :: others, finished⟩ := by
          simp only [turn, if_neg looking, found]
        obtain ⟨n, bound, rest⟩ := ih (looked + 1) (by omega) (queue ++ first :: others) finished
        refine ⟨n + 1, ?_, ?_⟩
        · rw [found] at few
          rw [List.length_append] at bound
          rw [List.length_cons, Nat.mul_succ]
          omega
        · rw [explore, found]
          exact .turn next rest

/-- The paths from an entry point are what a loop of boundedly many turns leaves complete. -/
theorem pathsFrom_ends (ix : Adjacency) (entry : Nat) :
    ∃ n ≤ 1 + mostBranches * mostSteps, ∃ paths, Tracing.Ends ix n ⟨0, [[entry]], []⟩ paths ∧
      pathsFrom ix entry = paths.filter (2 ≤ ·.length) := by
  obtain ⟨n, bound, ends⟩ :=
    Tracing.exists_ends ix mostSteps 0 (Nat.zero_add _) [[entry]] []
  exact ⟨n, bound, _, ends, rfl⟩

end CodeAtlas.FlowTrace
