import CodeAtlas.Flow.Entry
import CodeAtlas.Proofs.Double.Sums
import CodeAtlas.Proofs.Graph.Adjacency

/-!
# Which functions and classes are entry points

Of a symbol that calls something the score is positive, whoever calls it. The score of one that calls
nothing is what its name adds. So whether a score is positive depends on whether there are calls, and
not on how many.
-/

namespace CodeAtlas

namespace EntryPoint

/-- The functions and classes with a positive score, each with its position. -/
def entries (ix : Adjacency) : List (Node × Nat) :=
  ix.nodes.toList.zipIdx.filter fun (n, i) =>
    n.kind.isCallable && decide (0.0 < score ix i n.label)

end EntryPoint

/-- The functions and classes of a graph that have a positive score. -/
def RepoGraph.entryPoints (g : RepoGraph) : List Node :=
  (EntryPoint.entries (Adjacency.ofGraph g)).map Prod.fst

theorem RepoGraph.length_entryPoints_le (g : RepoGraph) : g.entryPoints.length ≤ g.nodes.length := by
  have few := List.length_filter_le (fun x : Node × Nat => x.1.kind.isCallable &&
    decide (0.0 < EntryPoint.score (Adjacency.ofGraph g) x.2 x.1.label)) g.nodes.zipIdx
  rw [List.length_zipIdx] at few
  rw [entryPoints, List.length_map]
  exact few

namespace EntryPoint

open Double

/-! ### What names add -/

theorem small_denotes {x : Float} (low : 0.0 ≤ x) (high : x ≤ 3.0) : ∃ q, Denotes x q := by
  have bits : (3.0 : Float).toModel.unpack = .finite .positive (3 * 2 ^ 51) (-51) (by norm_num) := by
    rfl
  have three : Denotes 3.0 ((3 * 2 ^ 51 : ℕ) * 2 ^ (-51 : ℤ)) := by
    rw [Denotes, bits]
    exact .finite _ (by norm_num) (by norm_num) (.inr (by norm_num))
  exact exists_denotes low high three

theorem foldl_max_mem (xs : List Float) (x : Float) : xs.foldl Scalar.max x ∈ x :: xs := by
  induction xs generalizing x with
  | nil => simp
  | cons y rest ih =>
    have greater : Scalar.max x y = x ∨ Scalar.max x y = y := by
      unfold Scalar.max
      split
      · exact .inr rfl
      · exact .inl rfl
    rw [List.foldl_cons]
    rcases greater with same | same
    · rw [same]
      have found := ih x
      grind
    · rw [same]
      exact List.mem_cons_of_mem x (ih y)

theorem bonusOf_denotes (name : String) : ∃ q, Denotes (bonusOf name) q := by
  have small : ∀ x ∈ (0.0 : Float) :: bonusPatterns.map (·.2), 0.0 ≤ x ∧ x ≤ 3.0 := by
    have constants : bonusPatterns.map (·.2) = [2.5, 2.0, 2.0, 1.5, 1.5, 1.0, 1.0, 1.0] := rfl
    rw [constants]
    decide
  have among : bonusOf name ∈ (0.0 : Float) :: bonusPatterns.map (·.2) := by
    unfold bonusOf
    rcases List.mem_cons.mp (foldl_max_mem _ 0.0) with least | greater
    · rw [least]
      exact List.mem_cons_self
    · apply List.mem_cons_of_mem
      obtain ⟨x, fits, same⟩ := List.mem_map.mp greater
      exact List.mem_map.mpr ⟨x, List.mem_of_mem_filter fits, same⟩
  obtain ⟨low, high⟩ := small _ among
  exact small_denotes low high

/-! ### Positive scores -/

section

variable {ix ix' : Adjacency} {i : Nat}

/-- The score of what calls something is positive. -/
theorem score_pos_of_calls (calls : ix.outgoing i [.calls] ≠ []) (label : String) :
    0.0 < score ix i label := by
  obtain ⟨bonus, named⟩ := bonusOf_denotes label
  obtain ⟨two, uncalled⟩ := small_denotes (x := 2.0) (by decide) (by decide)
  have called := (ofNat_atLeast (List.length_pos_iff.mpr calls)).half
  have positive : (0 : ℚ) < 1 / 2 := by norm_num
  unfold score
  dsimp only
  split
  · exact ((called.add named).add uncalled).lt zero_denotes positive
  · exact (called.add named).lt zero_denotes positive

/-- What calls nothing scores by its name alone. -/
theorem score_of_no_calls (none : ix.outgoing i [.calls] = []) (label : String) :
    score ix i label = 0.5 * Float.ofNat 0 + bonusOf label := by
  simp [score, none]

/-- Whether a score is positive depends on whether something is called. -/
theorem score_pos_congr
    (calling : ix.outgoing i [.calls] = [] ↔ ix'.outgoing i [.calls] = []) (label : String) :
    0.0 < score ix i label ↔ 0.0 < score ix' i label := by
  by_cases none : ix.outgoing i [.calls] = []
  · rw [score_of_no_calls none, score_of_no_calls (calling.mp none)]
  · have some : ix'.outgoing i [.calls] ≠ [] := fun none' => none (calling.mpr none')
    exact iff_of_true (score_pos_of_calls none label) (score_pos_of_calls some label)

theorem entries_congr (nodes : ix.nodes = ix'.nodes)
    (calling : ∀ i, ix.outgoing i [.calls] = [] ↔ ix'.outgoing i [.calls] = []) :
    entries ix = entries ix' := by
  unfold entries
  rw [nodes]
  apply List.filter_congr
  intro x _
  simp only [score_pos_congr (calling x.2)]

/-- How many entry points there are is told by the ids, kinds and names of the nodes. -/
theorem length_entries_congr {nodes nodes' : List Node}
    (same : nodes.map (fun n => (n.id, n.kind, n.label)) =
      nodes'.map fun n => (n.id, n.kind, n.label)) (edges : List Edge) :
    (entries (Adjacency.ofParts nodes edges)).length =
      (entries (Adjacency.ofParts nodes' edges)).length := by
  have ids : nodes.map Node.id = nodes'.map Node.id := by
    simpa [Function.comp_def] using congrArg (List.map Prod.fst) same
  obtain ⟨outgoing, incoming⟩ := Adjacency.links_congr ids edges
  have scores : score (Adjacency.ofParts nodes edges) = score (Adjacency.ofParts nodes' edges) := by
    unfold score Adjacency.outgoing Adjacency.incoming
    rw [outgoing, incoming]
  have counted : ∀ nodes : List Node, (entries (Adjacency.ofParts nodes edges)).length =
      ((nodes.map fun n => (n.id, n.kind, n.label)).zipIdx.filter fun (x, i) =>
        x.2.1.isCallable && decide (0.0 < score (Adjacency.ofParts nodes edges) i x.2.2)).length := by
    intro nodes
    rw [List.zipIdx_map, List.filter_map, List.length_map]
    rfl
  rw [counted, counted, same, scores]

/-! ### The best entry points -/

/-- What is scored and has a positive score are the entry points. -/
theorem filter_scored (ix : Adjacency) (items : List (Node × Nat)) :
    (items.filterMap fun (n, i) =>
      if n.kind.isCallable then some (i, score ix i n.label) else none).filter
        (fun c => decide (0.0 < c.2)) =
      (items.filter fun (n, i) => n.kind.isCallable && decide (0.0 < score ix i n.label)).map
        fun (n, i) => (i, score ix i n.label) := by
  induction items with
  | nil => rfl
  | cons x rest ih =>
    obtain ⟨n, i⟩ := x
    by_cases callable : n.kind.isCallable = true
    · by_cases positive : 0.0 < score ix i n.label
      · simp [callable, positive, ih]
      · simp [callable, positive, ih]
    · simp [callable, ih]

/-- The positions that are looked at are those of the entry points. -/
theorem candidates_perm (ix : Adjacency) :
    ((candidates ix).map Prod.fst).Perm ((entries ix).map Prod.snd) := by
  have sorted : (candidates ix).Perm ((ix.nodes.toList.zipIdx.filterMap fun (n, i) =>
      if n.kind.isCallable then some (i, score ix i n.label) else none).filter
        fun c => decide (0.0 < c.2)) := List.mergeSort_perm _ _
  rw [filter_scored] at sorted
  have positions := sorted.map Prod.fst
  rw [List.map_map] at positions
  exact positions

/-- If there are few entry points, all of them are among the best. -/
theorem top_perm (few : (entries ix).length ≤ mostEntries) :
    ((top ix).map Prod.fst).Perm ((entries ix).map Prod.snd) := by
  have lengths := (candidates_perm ix).length_eq
  rw [List.length_map, List.length_map] at lengths
  rw [top, List.take_of_length_le (lengths.trans_le few)]
  exact candidates_perm ix

end

end EntryPoint

end CodeAtlas
