import CodeAtlas.Proofs.Impact.Distance
import Mathlib.Data.Set.Basic

/-!
# An impact adds up

The depths of an impact do not grow with the change: an id comes into an earlier depth, or is changed
itself, when more ids are changed. The balls do, which hold the changed ids and all depths up to some
distance, since an id is within a distance of a change if it is so of one of its parts. What a change
affects is told by its balls, and neither the order of the changed ids nor how often one is given counts.
-/

namespace CodeAtlas.Impact

/-! ### Parts of a change -/

section

variable {nodes : List Node} {edges : List Edge} {changed changed' : List String} {k : Nat}
  {id : String}

theorem Reaches.mono (sub : changed ⊆ changed') (reaches : Reaches nodes edges changed k id) :
    Reaches nodes edges changed' k id := by
  induction reaches with
  | changed listed known => exact .changed (sub listed) known
  | step depends _ ih => exact .step depends ih

/-- What reaches a change reaches one of its parts. -/
theorem reaches_append_iff : Reaches nodes edges (changed ++ changed') k id ↔
    Reaches nodes edges changed k id ∨ Reaches nodes edges changed' k id := by
  constructor
  · intro reaches
    induction reaches with
    | changed listed known =>
      exact (List.mem_append.mp listed).imp (.changed · known) (.changed · known)
    | step depends _ ih => exact ih.imp (.step depends) (.step depends)
  · intro reaches
    cases reaches with
    | inl reaches => exact reaches.mono (List.subset_append_left _ _)
    | inr reaches => exact reaches.mono (List.subset_append_right _ _)

/-- Distances go by which ids are changed. -/
theorem distance_congr (same : ∀ id, id ∈ changed ↔ id ∈ changed') :
    Distance nodes edges changed k id ↔ Distance nodes edges changed' k id := by
  have reaches : ∀ m, Reaches nodes edges changed m id ↔ Reaches nodes edges changed' m id :=
    fun m => ⟨.mono fun id => (same id).mp, .mono fun id => (same id).mpr⟩
  simp only [Distance, reaches]

end

/-! ### Balls -/

/-- The depths of an impact, the nearest first. -/
def depths (i : Impact) : List (List Affected) :=
  [i.depth1, i.depth2, i.depth3]

/-- What the steps of the search list, the depths of an impact. -/
def listings (nodes : List Node) (edges : List Edge) (changed : List String) : List (List Affected) :=
  let ix := Adjacency.ofParts nodes edges
  let start := changed.eraseDups.filterMap ix.position?
  (tiers ix 3 start start).map fun tier => tier.filterMap (affected? ix)

/-- The known ids among the changed ones, with the ids in so many depths of the impact. -/
def ball (nodes : List Node) (edges : List Edge) (flows : List Flow) (changed : List String)
    (k : Nat) : Set String :=
  {id | id ∈ changed ∧ id ∈ nodes.map Node.id} ∪
    {id | ∃ depth ∈ (ofChange changed nodes edges flows).depths.take k, id ∈ depth.map Affected.id}

section

variable {nodes : List Node} {edges : List Edge} {flows : List Flow} {changed changed' : List String}
  {k : Nat} {id : String}

theorem depths_ofChange (nodes : List Node) (edges : List Edge) (flows : List Flow)
    (changed : List String) (inside : k < 3) : (ofChange changed nodes edges flows).depths[k]? =
      some ((listings nodes edges changed)[k]?.getD []) := by
  match k, inside with
  | 0, _ => rfl
  | 1, _ => rfl
  | 2, _ => rfl

/-- Each depth lists the ids at its distance, each once. -/
theorem getElem?_depths (nodes : List Node) (edges : List Edge) (flows : List Flow)
    (changed : List String) (inside : k < 3) :
    ∃ depth, (ofChange changed nodes edges flows).depths[k]? = some depth ∧
      (depth.map Affected.id).Nodup ∧
      ∀ id, id ∈ depth.map Affected.id ↔ Distance nodes edges changed (k + 1) id := by
  obtain ⟨tier, holds, listed⟩ := exists_tier changed nodes edges inside
  have lists : Lists nodes edges changed (k + 1) (nodes.map Node.id) _ :=
    holds.lists fun id distance => distance.1.known
  refine ⟨_, ?_, lists.once, lists.exact⟩
  rw [depths_ofChange nodes edges flows changed inside]
  exact congrArg some listed

theorem mem_ball_succ_iff {depth : List Affected}
    (found : (ofChange changed nodes edges flows).depths[k]? = some depth) :
    id ∈ ball nodes edges flows changed (k + 1) ↔
      id ∈ ball nodes edges flows changed k ∨ id ∈ depth.map Affected.id := by
  simp [ball, List.take_add_one, found, or_assoc, or_and_right, exists_or]

/-- A ball holds the ids from which a changed node is reached within its radius. -/
theorem mem_ball_iff (within : k ≤ 3) :
    id ∈ ball nodes edges flows changed k ↔ ∃ m ≤ k, Reaches nodes edges changed m id := by
  induction k with
  | zero =>
    have center : id ∈ ball nodes edges flows changed 0 ↔ Distance nodes edges changed 0 id := by
      rw [distance_zero_iff]
      simp [ball]
    rw [center]
    simp [Distance]
  | succ k ih =>
    obtain ⟨depth, found, -, exact⟩ := getElem?_depths nodes edges flows changed within
    rw [mem_ball_succ_iff found, ih (Nat.le_of_succ_le within), exact, reaches_le_succ_iff]

/-- The ball of a change is made of those of its parts. -/
theorem ball_append (within : k ≤ 3) :
    ball nodes edges flows (changed ++ changed') k =
      ball nodes edges flows changed k ∪ ball nodes edges flows changed' k := by
  ext id
  rw [Set.mem_union, mem_ball_iff within, mem_ball_iff within, mem_ball_iff within]
  simp only [reaches_append_iff, and_or_left, exists_or]

theorem ball_mono (within : k ≤ 3) (sub : changed ⊆ changed') :
    ball nodes edges flows changed k ⊆ ball nodes edges flows changed' k := by
  intro id
  rw [mem_ball_iff within, mem_ball_iff within]
  intro ⟨m, le, reaches⟩
  exact ⟨m, le, reaches.mono sub⟩

/-! ### Flows -/

/-- The ids that make a flow affected: those of the change and of the first two depths. -/
def touched (i : Impact) : List String :=
  i.changed ++ i.depth1.map Affected.id ++ i.depth2.map Affected.id

theorem affectedFlows_eq (changed : List String) (nodes : List Node) (edges : List Edge)
    (flows : List Flow) : (ofChange changed nodes edges flows).affectedFlows =
      flows.filter fun f => f.steps.any (ofChange changed nodes edges flows).touched.contains :=
  rfl

theorem mem_touched_iff : id ∈ (ofChange changed nodes edges flows).touched ↔
    id ∈ changed ∨ id ∈ ball nodes edges flows changed 2 := by
  have listed : id ∈ (ofChange changed nodes edges flows).changed ↔ id ∈ changed :=
    List.mem_eraseDups
  rw [touched, List.mem_append, List.mem_append, listed, ball]
  by_cases isChanged : id ∈ changed
  · simp [isChanged]
  · simp [isChanged, depths]

/-- A greater change affects all flows that a smaller one does. -/
theorem affectedFlows_sublist (flows : List Flow) (sub : changed ⊆ changed') :
    (ofChange changed nodes edges flows).affectedFlows.Sublist
      (ofChange changed' nodes edges flows).affectedFlows := by
  rw [affectedFlows_eq, affectedFlows_eq]
  apply List.monotone_filter_right
  intro f affected
  simp only [List.any_eq_true, List.contains_iff_mem, mem_touched_iff] at affected ⊢
  obtain ⟨s, step, near⟩ := affected
  cases near with
  | inl isChanged => exact ⟨s, step, .inl (sub isChanged)⟩
  | inr inBall => exact ⟨s, step, .inr (ball_mono (by decide) sub inBall)⟩

end

/-! ### Changes of the same ids -/

/-- Two impacts that differ in nothing but how their changes are written down: each depth has the same
ids, and risk and affected flows are the same. -/
structure Alike (i i' : Impact) : Prop where
  depth1 : (i.depth1.map Affected.id).Perm (i'.depth1.map Affected.id)
  depth2 : (i.depth2.map Affected.id).Perm (i'.depth2.map Affected.id)
  depth3 : (i.depth3.map Affected.id).Perm (i'.depth3.map Affected.id)
  risk : i.risk = i'.risk
  affectedFlows : i.affectedFlows = i'.affectedFlows

section

variable {nodes : List Node} {edges : List Edge} {changed changed' : List String} {k : Nat}

theorem depth_perm (flows : List Flow) (same : ∀ id, id ∈ changed ↔ id ∈ changed')
    {depth depth' : List Affected} (inside : k < 3)
    (found : (ofChange changed nodes edges flows).depths[k]? = some depth)
    (found' : (ofChange changed' nodes edges flows).depths[k]? = some depth') :
    (depth.map Affected.id).Perm (depth'.map Affected.id) := by
  obtain ⟨_, known, once, exact⟩ := getElem?_depths nodes edges flows changed inside
  obtain ⟨_, known', once', exact'⟩ := getElem?_depths nodes edges flows changed' inside
  obtain rfl := Option.some.inj (found.symm.trans known)
  obtain rfl := Option.some.inj (found'.symm.trans known')
  rw [List.perm_ext_iff_of_nodup once once']
  intro id
  rw [exact, exact', distance_congr same]

/-- Neither the order of the changed ids nor how often one is given makes a difference. -/
theorem ofChange_alike (flows : List Flow) (same : ∀ id, id ∈ changed ↔ id ∈ changed') :
    Alike (ofChange changed nodes edges flows) (ofChange changed' nodes edges flows) := by
  have first : ((ofChange changed nodes edges flows).depth1.map Affected.id).Perm
      ((ofChange changed' nodes edges flows).depth1.map Affected.id) :=
    depth_perm (k := 0) flows same (by decide) rfl rfl
  refine ⟨first, ?_, ?_, ?_, ?_⟩
  · exact depth_perm (k := 1) flows same (by decide) rfl rfl
  · exact depth_perm (k := 2) flows same (by decide) rfl rfl
  · have direct : (ofChange changed nodes edges flows).depth1.length =
        (ofChange changed' nodes edges flows).depth1.length := by
      simpa using first.length_eq
    exact congrArg Risk.ofDirectDependents direct
  · have sub : changed ⊆ changed' := fun id => (same id).mp
    have sub' : changed' ⊆ changed := fun id => (same id).mpr
    exact (affectedFlows_sublist flows sub).antisymm (affectedFlows_sublist flows sub')

end

/-- How the impacts of changes to a graph hang together: the balls of a change are made of those of its
parts, a greater change affects the flows of a smaller one, and what the change of some ids affects
depends on which ids they are. -/
structure Additive (nodes : List Node) (edges : List Edge) (flows : List Flow) : Prop where
  union : ∀ changed changed' k, k ≤ 3 → ball nodes edges flows (changed ++ changed') k =
    ball nodes edges flows changed k ∪ ball nodes edges flows changed' k
  monotone : ∀ changed changed', changed ⊆ changed' →
    (ofChange changed nodes edges flows).affectedFlows.Sublist
      (ofChange changed' nodes edges flows).affectedFlows
  repeated : ∀ changed changed', (∀ id, id ∈ changed ↔ id ∈ changed') →
    Alike (ofChange changed nodes edges flows) (ofChange changed' nodes edges flows)

/-- Impacts add up, whatever the nodes and edges are. -/
theorem ofChange_additive (nodes : List Node) (edges : List Edge) (flows : List Flow) :
    Additive nodes edges flows where
  union _ _ _ within := ball_append within
  monotone _ _ sub := affectedFlows_sublist flows sub
  repeated _ _ same := ofChange_alike flows same

end CodeAtlas.Impact
