import CodeAtlas.Proofs.Flow.Distinct
import CodeAtlas.Proofs.Scalar.Ranked

/-!
# Flows do not depend on positions

If nodes and edges come in another order, every node gets another position. Wherever an order is
needed, it goes by numbers and then by ids, which no two of the ordered things share; so all that is
computed from positions is the same under the new ones, and what is told by ids does not change.
-/

namespace CodeAtlas

/-! ### Ranked items -/

namespace Double

section

variable {β γ : Type} {items : List β} {items' : List γ} {f : β → γ} {score : β → Float}
  {score' : γ → Float} {text : β → String} {text' : γ → String}

/-- Items whose scores are numbers are ranked by these and by their texts. -/
theorem rankedBy_text (numbers : ∀ a ∈ items, Number (score a)) :
    Scalar.RankedBy score (fun a b => decide (text a ≤ text b))
      (fun a => toLex (OrderDual.toDual (rankOf (score a)), text a)) items := by
  apply Scalar.rankedBy_pair
  · intro a inItems b inItems'
    exact decide_eq_decide.mpr (lt_iff_rankOf (numbers a inItems) (numbers b inItems'))
  · intro a _ b _
    rfl

/-- Items that are renamed and come in another order are ranked as before, if their scores are numbers
and no two have the same text. -/
theorem ranked_map (perm : items'.Perm (items.map f)) (scores : ∀ a ∈ items, score' (f a) = score a)
    (texts : ∀ a ∈ items, text' (f a) = text a) (numbers : ∀ a ∈ items, Number (score a))
    (distinct : (items.map text).Nodup) :
    Scalar.ranked score' (fun a b => decide (text' a ≤ text' b)) items' =
      (Scalar.ranked score (fun a b => decide (text a ≤ text b)) items).map f := by
  have numbers' : ∀ a ∈ items', Number (score' a) := by
    intro a member
    obtain ⟨b, inItems, rfl⟩ := List.mem_map.mp (perm.mem_iff.mp member)
    rw [scores b inItems]
    exact numbers b inItems
  refine (rankedBy_text numbers).ranked_map (rankedBy_text numbers') perm ?_ ?_
  · intro a member
    rw [scores a member, texts a member]
  · apply List.Nodup.of_map fun key => (ofLex key).2
    rw [List.map_map]
    exact distinct

end

end Double

namespace FlowTrace

/-! ### Renamed positions -/

/-- Positions are renamed, so that each node is found under its new position, with the same calls. -/
structure Renames (σ : Nat → Nat) (ix ix' : Adjacency) : Prop where
  injective : Function.Injective σ
  node : ∀ i, ix'.node? (σ i) = ix.node? i
  nodes : ix'.nodes.toList.zipIdx.Perm (ix.nodes.toList.zipIdx.map fun x => (x.1, σ x.2))
  outgoing : ∀ i, (ix'.outgoing (σ i) [.calls]).Perm
    ((ix.outgoing i [.calls]).map fun x => (σ x.1, x.2))
  incoming : ∀ i, (ix'.incoming (σ i) [.calls]).Perm
    ((ix.incoming i [.calls]).map fun x => (σ x.1, x.2))

/-- Nodes are told apart by their ids, and the calls of each node by their targets; certainties are
numbers. -/
structure Orderly (ix : Adjacency) : Prop where
  ids : ∀ i < ix.size, ∀ j < ix.size, ix.idAt i = ix.idAt j → i = j
  inside : ∀ i, ∀ x ∈ ix.outgoing i [.calls], x.1 < ix.size
  once : ∀ i, ((ix.outgoing i [.calls]).map Prod.fst).Nodup
  numbers : ∀ i, ∀ x ∈ ix.outgoing i [.calls], Double.Number x.2.confidence

section

variable {σ : Nat → Nat} {ix ix' : Adjacency} {i : Nat} {path : Path}

theorem Renames.idAt (renames : Renames σ ix ix') (i : Nat) : ix'.idAt (σ i) = ix.idAt i := by
  rw [Adjacency.idAt, Adjacency.idAt, renames.node]

theorem Renames.ids (renames : Renames σ ix ix') (path : Path) :
    (path.map σ).map ix'.idAt = path.map ix.idAt := by
  rw [List.map_map]
  exact List.map_congr_left fun i _ => renames.idAt i

theorem Renames.score (renames : Renames σ ix ix') (i : Nat) (label : String) :
    EntryPoint.score ix' (σ i) label = EntryPoint.score ix i label := by
  have outgoing := (renames.outgoing i).length_eq
  have incoming := (renames.incoming i).length_eq
  rw [List.length_map] at outgoing incoming
  rw [EntryPoint.score, EntryPoint.score, outgoing, incoming]

/-- Where no target comes twice, all entries are the first of their targets. -/
theorem firstTargets_eq_self {seen : List Nat} {targets : List (Nat × Float)}
    (once : (targets.map Prod.fst).Nodup) (new : ∀ t ∈ targets.map Prod.fst, t ∉ seen) :
    firstTargets seen targets = targets := by
  induction targets generalizing seen with
  | nil => rfl
  | cons target rest ih =>
    obtain ⟨t, confidence⟩ := target
    obtain ⟨fresh, once'⟩ := List.nodup_cons.mp once
    have unseen : ¬ seen.contains t = true := by
      rw [List.contains_iff_mem]
      exact new t List.mem_cons_self
    rw [firstTargets, if_neg unseen, ih once']
    intro other member old
    rcases List.mem_cons.mp old with rfl | before
    · exact fresh member
    · exact new other (List.mem_cons_of_mem _ member) before

theorem callees_sublist (ix : Adjacency) (i : Nat) (path : Path) :
    ((callees ix i path).map Prod.fst).Sublist ((ix.outgoing i [.calls]).map Prod.fst) := by
  unfold callees
  induction ix.outgoing i [.calls] with
  | nil => exact List.Sublist.refl _
  | cons x rest ih =>
    obtain ⟨target, e⟩ := x
    rw [List.filterMap_cons]
    dsimp only
    split
    · next none => exact ih.trans (List.sublist_cons_self _ _)
    · next y kept =>
      split at kept
      · cases kept
      · obtain rfl := Option.some.inj kept
        exact ih.cons_cons target

theorem Renames.callees (renames : Renames σ ix ix') (i : Nat) (path : Path) :
    (callees ix' (σ i) (path.map σ)).Perm ((callees ix i path).map fun x => (σ x.1, x.2)) := by
  refine ((renames.outgoing i).filterMap _).trans (List.Perm.of_eq ?_)
  rw [FlowTrace.callees, List.filterMap_map, List.map_filterMap]
  apply List.filterMap_congr
  rintro ⟨target, e⟩ -
  have onPath : (path.map σ).contains (σ target) = path.contains target := by
    rw [Bool.eq_iff_iff, List.contains_iff_mem, List.contains_iff_mem,
      List.mem_map_of_injective renames.injective]
  simp only [Function.comp_apply, onPath]
  split <;> rfl

/-- A path goes on in the same ways, under the new positions. -/
theorem Renames.branches (renames : Renames σ ix ix') (orderly : Orderly ix) (i : Nat) (path : Path) :
    branches ix' (σ i) (path.map σ) = (branches ix i path).map σ := by
  have once : ((FlowTrace.callees ix i path).map Prod.fst).Nodup :=
    (orderly.once i).sublist (callees_sublist ix i path)
  have perm := renames.callees i path
  have once' : ((FlowTrace.callees ix' (σ i) (path.map σ)).map Prod.fst).Nodup := by
    refine (perm.map Prod.fst).nodup_iff.mpr ?_
    have targets := once.map renames.injective
    rwa [List.map_map] at targets ⊢
  have distinct : ((FlowTrace.callees ix i path).map fun x => ix.idAt x.1).Nodup := by
    have inside : ∀ t ∈ (FlowTrace.callees ix i path).map Prod.fst, t < ix.size := by
      intro t member
      obtain ⟨x, callee, rfl⟩ := List.mem_map.mp member
      obtain ⟨e, leaving, -⟩ := mem_callees.mp callee
      exact orderly.inside i _ leaving
    have ids := once.map_on fun s inS t inT => orderly.ids s (inside s inS) t (inside t inT)
    rwa [List.map_map] at ids
  have numbers : ∀ x ∈ FlowTrace.callees ix i path, Double.Number x.2 := by
    intro x callee
    obtain ⟨e, leaving, -, -, certainty⟩ := mem_callees.mp callee
    have number : Double.Number e.confidence := orderly.numbers i (x.1, e) leaving
    exact certainty ▸ number
  have ranked : Scalar.ranked (·.2) (fun a b => decide (ix'.idAt a.1 ≤ ix'.idAt b.1))
        (FlowTrace.callees ix' (σ i) (path.map σ)) =
      (Scalar.ranked (·.2) (fun a b => decide (ix.idAt a.1 ≤ ix.idAt b.1))
        (FlowTrace.callees ix i path)).map fun x => (σ x.1, x.2) :=
    Double.ranked_map perm (fun _ _ => rfl) (fun x _ => renames.idAt x.1) numbers distinct
  have first := branches_eq ix i path
  have second := branches_eq ix' (σ i) (path.map σ)
  rw [firstTargets_eq_self once (by simp)] at first
  rw [firstTargets_eq_self once' (by simp), ranked] at second
  rw [first, second, ← List.map_take, List.map_map, List.map_map]
  apply List.map_congr_left
  intro x _
  rfl

theorem Renames.extensions (renames : Renames σ ix ix') (orderly : Orderly ix) (path : Path) :
    extensions ix' (path.map σ) = (extensions ix path).map (List.map σ) := by
  unfold FlowTrace.extensions
  rw [List.getLast?_map, List.length_map]
  cases path.getLast? with
  | none => rfl
  | some last =>
    rw [Option.map_some]
    dsimp only
    split
    · rfl
    · rw [renames.branches orderly, List.map_map, List.map_map]
      apply List.map_congr_left
      intro target _
      simp

/-- The search leaves the same paths, under the new positions. -/
theorem Renames.explore (renames : Renames σ ix ix') (orderly : Orderly ix) (n : Nat)
    (queue finished : List Path) :
    explore ix' n (queue.map (List.map σ)) (finished.map (List.map σ)) =
      (explore ix n queue finished).map (List.map σ) := by
  induction n generalizing queue finished with
  | zero => cases queue <;> simp [FlowTrace.explore]
  | succ n ih =>
    cases queue with
    | nil => simp [FlowTrace.explore]
    | cons path queue =>
      rw [List.map_cons, FlowTrace.explore, FlowTrace.explore, renames.extensions orderly]
      cases FlowTrace.extensions ix path with
      | nil => exact ih queue (path :: finished)
      | cons first others =>
        have rest := ih (queue ++ first :: others) finished
        rw [List.map_append] at rest
        exact rest

theorem Renames.pathsFrom (renames : Renames σ ix ix') (orderly : Orderly ix) (entry : Nat) :
    pathsFrom ix' (σ entry) = (pathsFrom ix entry).map (List.map σ) := by
  have explored := renames.explore orderly mostSteps [[entry]] []
  rw [FlowTrace.pathsFrom, FlowTrace.pathsFrom]
  rw [List.map_singleton, List.map_singleton, List.map_nil] at explored
  rw [explored, List.filter_map]
  simp [Function.comp_def]

end

end FlowTrace

/-! ### The best entry points -/

namespace EntryPoint

variable {σ : Nat → Nat} {ix ix' : Adjacency}

/-- The entry points with their scores, as they are ranked. -/
theorem candidates_eq (ix : Adjacency) : candidates ix =
    Scalar.ranked (·.2) (fun a b => decide (ix.idAt a.1 ≤ ix.idAt b.1))
      ((entries ix).map fun (n, i) => (i, score ix i n.label)) := by
  rw [entries, ← filter_scored]
  rfl

theorem entries_renamed (renames : FlowTrace.Renames σ ix ix') :
    (entries ix').Perm ((entries ix).map fun x => (x.1, σ x.2)) := by
  refine (renames.nodes.filter _).trans (List.Perm.of_eq ?_)
  rw [List.filter_map]
  refine congrArg (List.map _) (List.filter_congr fun x _ => ?_)
  simp only [Function.comp_apply, renames.score]

theorem candidates_renamed (renames : FlowTrace.Renames σ ix ix')
    (orderly : FlowTrace.Orderly ix) :
    candidates ix' = (candidates ix).map fun c => (σ c.1, c.2) := by
  have perm : ((entries ix').map fun (n, i) => (i, score ix' i n.label)).Perm
      (((entries ix).map fun (n, i) => (i, score ix i n.label)).map fun c => (σ c.1, c.2)) := by
    refine ((entries_renamed renames).map _).trans (List.Perm.of_eq ?_)
    rw [List.map_map, List.map_map]
    apply List.map_congr_left
    rintro ⟨n, i⟩ -
    exact congrArg (σ i, ·) (renames.score i n.label)
  have numbers : ∀ c ∈ (entries ix).map fun (n, i) => (i, score ix i n.label),
      Double.Number c.2 := by
    intro c scored
    obtain ⟨⟨n, i⟩, entry, rfl⟩ := List.mem_map.mp scored
    have positive := (Bool.and_eq_true_iff.mp (List.mem_filter.mp entry).2).2
    exact (Double.number_of_lt (of_decide_eq_true positive)).2
  have distinct : (((entries ix).map fun (n, i) => (i, score ix i n.label)).map
      fun c => ix.idAt c.1).Nodup := by
    have positions : ((entries ix).map Prod.snd).Nodup :=
      (List.nodup_zipIdx_map_snd ix.nodes.toList).sublist (List.filter_sublist.map Prod.snd)
    have inside : ∀ i ∈ (entries ix).map Prod.snd, i < ix.size := by
      intro i member
      obtain ⟨x, entry, rfl⟩ := List.mem_map.mp member
      have found := List.mem_zipIdx_iff_getElem?.mp (List.mem_of_mem_filter entry)
      exact (List.getElem?_eq_some_iff.mp found).1
    have ids := positions.map_on fun i inI j inJ => orderly.ids i (inside i inI) j (inside j inJ)
    rw [List.map_map] at ids ⊢
    exact ids
  rw [candidates_eq, candidates_eq]
  exact Double.ranked_map perm (fun _ _ => rfl) (fun c _ => renames.idAt c.1) numbers distinct

end EntryPoint

/-! ### Paths that become flows -/

namespace Flows

open FlowTrace

section

variable {σ : Nat → Nat} {ix ix' : Adjacency} {path longer : Path}

theorem tracedPaths_renamed (renames : Renames σ ix ix') (orderly : Orderly ix) :
    tracedPaths ix' = (tracedPaths ix).map (List.map σ) := by
  rw [tracedPaths, EntryPoint.top, EntryPoint.candidates_renamed renames orderly, ← List.map_take,
    List.flatMap_map, tracedPaths, List.map_flatMap]
  apply List.flatMap_congr
  intro c _
  exact renames.pathsFrom orderly c.1

theorem ends_renamed (σ : Nat → Nat) (nonempty : path ≠ []) :
    ends (path.map σ) = (σ (ends path).1, σ (ends path).2) := by
  obtain ⟨first, rest, rfl⟩ := List.exists_cons_of_ne_nil nonempty
  rw [ends, ends, List.getLastD_eq_getLast?, List.getLastD_eq_getLast?, List.getLast?_map,
    List.getLast?_eq_some_getLast nonempty]
  rfl

theorem subsumes_renamed (injective : Function.Injective σ) :
    subsumes (longer.map σ) (path.map σ) = subsumes longer path := by
  rw [Bool.eq_iff_iff, subsumes_iff, subsumes_iff, List.length_map, List.length_map]
  refine and_congr_right fun _ => ⟨fun inside i member => ?_, List.map_subset σ⟩
  exact (List.mem_map_of_injective injective).mp (inside (List.mem_map_of_mem member))

theorem keepDistinct_renamed (injective : Function.Injective σ) (kept paths : List Path)
    (nonempty : ∀ path ∈ kept ++ paths, path ≠ []) :
    keepDistinct (kept.map (List.map σ)) (paths.map (List.map σ)) =
      (keepDistinct kept paths).map (List.map σ) := by
  induction paths generalizing kept with
  | nil => simp [keepDistinct]
  | cons path rest ih =>
    have here := nonempty path (by simp)
    have sameEnds : (kept.map (List.map σ)).any (fun k => ends k == ends (path.map σ)) =
        kept.any fun k => ends k == ends path := by
      rw [List.any_map, Bool.eq_iff_iff, List.any_eq_true, List.any_eq_true]
      refine exists_congr fun k => and_congr_right fun member => ?_
      have there := nonempty k (List.mem_append_left _ member)
      simp [ends_renamed σ here, ends_renamed σ there, Prod.ext_iff, injective.eq_iff]
    have subsumed : (kept.map (List.map σ)).any (fun k => subsumes k (path.map σ)) =
        kept.any fun k => subsumes k path := by
      simp only [List.any_map, Function.comp_def, subsumes_renamed injective]
    rw [List.map_cons, keepDistinct, keepDistinct, sameEnds, subsumed]
    split
    · exact ih kept fun other member => nonempty other (by grind)
    · split
      · exact ih kept fun other member => nonempty other (by grind)
      · exact ih (path :: kept) fun other member => nonempty other (by grind)

theorem distinctPaths_renamed (renames : Renames σ ix ix') {paths : List Path}
    (nonempty : ∀ path ∈ paths, path ≠ []) :
    distinctPaths ix' (paths.map (List.map σ)) = (distinctPaths ix paths).map (List.map σ) := by
  have sorted : (paths.map (List.map σ)).mergeSort (pathBefore ix') =
      (paths.mergeSort (pathBefore ix)).map (List.map σ) := by
    refine (List.map_mergeSort fun a _ b _ => ?_).symm
    simp only [pathBefore, List.length_map, renames.ids]
  rw [distinctPaths, distinctPaths, sorted]
  exact keepDistinct_renamed renames.injective [] _ fun path member =>
    nonempty path (List.mem_mergeSort.mp member)

theorem ofPath_renamed (renames : Renames σ ix ix') (communityOf : String → Option String)
    (number : Nat) (nonempty : path ≠ []) :
    ofPath ix' communityOf number (path.map σ) = ofPath ix communityOf number path := by
  simp only [ofPath, ends_renamed σ nonempty, renames.ids, renames.node, renames.idAt]

/-- The same paths, under other positions, become the same flows. -/
theorem map_ofPath_renamed (renames : Renames σ ix ix') (orderly : Orderly ix)
    (communityOf : String → Option String) :
    (flowPaths ix').zipIdx.map (fun x => ofPath ix' communityOf x.2 x.1) =
      (flowPaths ix).zipIdx.map fun x => ofPath ix communityOf x.2 x.1 := by
  have traced := tracedPaths_renamed renames orderly
  have same : flowPaths ix' = (flowPaths ix).map (List.map σ) := by
    rw [flowPaths, traced, distinctPaths_renamed renames fun path => ne_nil_of_mem_tracedPaths,
      ← List.map_take]
    rfl
  rw [same, List.zipIdx_map, List.map_map]
  apply List.map_congr_left
  rintro ⟨path, n⟩ listed
  have member := flowPaths_subset ix (List.fst_mem_of_mem_zipIdx listed)
  exact ofPath_renamed renames communityOf n (ne_nil_of_mem_tracedPaths member)

end

end Flows

end CodeAtlas
