import CodeAtlas.Impact.Analysis
import CodeAtlas.Proofs.Graph.Adjacency
import Mathlib.Data.List.Nodup

/-!
# An impact lists the nodes by their distance

Ids depend on one another along edges of dependence between known nodes, and the distance of an id is
the least number of such steps from it to a changed node. The search keeps all positions up to a
distance and those at it, so that every further step finds the next distance exactly. The three
depths of an impact are therefore the nodes at the distances one, two and three.
-/

namespace CodeAtlas.Impact

/-! ### Distances -/

section

variable {nodes : List Node} {edges : List Edge} {changed : List String} {a b id : String}
  {k m : Nat}

/-- An edge by which one known id depends on another one. -/
structure DependsBy (nodes : List Node) (edges : List Edge) (e : Edge) : Prop where
  listed : e ∈ edges
  kind : e.kind = .calls ∨ e.kind = .imports ∨ e.kind = .extends
  source : e.source ∈ nodes.map Node.id
  target : e.target ∈ nodes.map Node.id

/-- So many steps of dependence lead from an id to a changed node. -/
inductive Reaches (nodes : List Node) (edges : List Edge) (changed : List String) :
    Nat → String → Prop
  | changed {id : String} (listed : id ∈ changed) (known : id ∈ nodes.map Node.id) :
      Reaches nodes edges changed 0 id
  | step {k : Nat} {e : Edge} (depends : DependsBy nodes edges e)
      (rest : Reaches nodes edges changed k e.target) :
      Reaches nodes edges changed (k + 1) e.source

/-- The least number of steps of dependence from an id to a changed node. -/
def Distance (nodes : List Node) (edges : List Edge) (changed : List String) (k : Nat)
    (id : String) : Prop :=
  Reaches nodes edges changed k id ∧ ∀ m < k, ¬ Reaches nodes edges changed m id

theorem Reaches.known (reaches : Reaches nodes edges changed k id) : id ∈ nodes.map Node.id := by
  cases reaches with
  | changed _ known => exact known
  | step depends _ => exact depends.source

theorem Distance.unique (h : Distance nodes edges changed k id)
    (h' : Distance nodes edges changed m id) : k = m := by
  rcases Nat.lt_trichotomy k m with less | same | greater
  · exact absurd h.1 (h'.2 k less)
  · exact same
  · exact absurd h'.1 (h.2 m greater)

theorem distance_zero_iff :
    Distance nodes edges changed 0 id ↔ id ∈ changed ∧ id ∈ nodes.map Node.id := by
  constructor
  · rintro ⟨reaches, -⟩
    cases reaches with
    | changed listed known => exact ⟨listed, known⟩
  · rintro ⟨listed, known⟩
    exact ⟨.changed listed known, fun m less => absurd less (Nat.not_lt_zero m)⟩

/-- The ids one step farther are those that depend on some id at the distance and are not nearer. -/
theorem distance_succ_iff :
    Distance nodes edges changed (k + 1) id ↔
      (∃ e, DependsBy nodes edges e ∧ e.source = id ∧ Distance nodes edges changed k e.target) ∧
        ∀ m ≤ k, ¬ Reaches nodes edges changed m id := by
  constructor
  · rintro ⟨reaches, least⟩
    refine ⟨?_, fun m le => least m (Nat.lt_succ_of_le le)⟩
    cases reaches with
    | step depends rest =>
      refine ⟨_, depends, rfl, rest, ?_⟩
      intro m less shorter
      exact least (m + 1) (Nat.succ_lt_succ less) (.step depends shorter)
  · rintro ⟨⟨e, depends, rfl, rest, -⟩, least⟩
    exact ⟨.step depends rest, fun m less => least m (Nat.le_of_lt_succ less)⟩

/-- What is reached in so many steps at most has its distance among them. -/
theorem reaches_le_succ_iff :
    (∃ m ≤ k + 1, Reaches nodes edges changed m id) ↔
      (∃ m ≤ k, Reaches nodes edges changed m id) ∨ Distance nodes edges changed (k + 1) id := by
  constructor
  · rintro ⟨m, le, reaches⟩
    by_cases nearer : ∃ m ≤ k, Reaches nodes edges changed m id
    · exact .inl nearer
    · have last : m = k + 1 := by
        by_contra other
        exact nearer ⟨m, by omega, reaches⟩
      subst last
      refine .inr ⟨reaches, ?_⟩
      intro m less shorter
      exact nearer ⟨m, Nat.le_of_lt_succ less, shorter⟩
  · rintro (⟨m, le, reaches⟩ | ⟨reaches, -⟩)
    · exact ⟨m, Nat.le_succ_of_le le, reaches⟩
    · exact ⟨k + 1, Nat.le_refl _, reaches⟩

end

/-! ### Steps of the search -/

theorem newlyReached_sublist (seen : List Nat) (found : List (Nat × Edge)) :
    (newlyReached seen found).1.Sublist found := by
  fun_induction newlyReached seen found with
  | case1 => exact List.Sublist.refl _
  | case2 seen source e rest old ih => exact ih.trans (List.sublist_cons_self _ _)
  | case3 seen source e rest new reached seen' reads ih =>
    rw [reads] at ih
    exact ih.cons_cons _

/-- Everything that is found counts as reached afterwards. -/
theorem mem_seen_of_found (seen : List Nat) (found : List (Nat × Edge)) {i : Nat}
    (member : i ∈ found.map Prod.fst) : i ∈ (newlyReached seen found).2 := by
  fun_induction newlyReached seen found with
  | case1 => simp at member
  | case2 seen source e rest old ih =>
    rw [List.map_cons, List.mem_cons] at member
    rcases member with rfl | later
    · exact (mem_newlyReached_seen seen rest _).mpr (.inl (by simpa using old))
    · exact ih later
  | case3 seen source e rest new reached seen' reads ih =>
    rw [reads] at ih
    rw [List.map_cons, List.mem_cons] at member
    rcases member with rfl | later
    · have kept := (mem_newlyReached_seen (i :: seen) rest i).mpr (.inl (by simp))
      rwa [reads] at kept
    · exact ih later

theorem mem_newlyReached {seen : List Nat} {found : List (Nat × Edge)} {i : Nat} :
    i ∈ (newlyReached seen found).1.map Prod.fst ↔ i ∈ found.map Prod.fst ∧ i ∉ seen := by
  constructor
  · intro member
    exact ⟨(newlyReached_sublist seen found).map _ |>.subset member,
      (newlyReached_new seen found).2 i member⟩
  · rintro ⟨member, new⟩
    exact ((mem_newlyReached_seen seen found i).mp (mem_seen_of_found seen found member)).resolve_left
      new

/-- Where nothing has been reached before and nothing is found twice, all that is found is new. -/
theorem newlyReached_eq {seen : List Nat} {found : List (Nat × Edge)}
    (distinct : (found.map Prod.fst).Nodup) (fresh : ∀ x ∈ found, x.1 ∉ seen) :
    (newlyReached seen found).1 = found := by
  fun_induction newlyReached seen found with
  | case1 => rfl
  | case2 seen source e rest old ih =>
    exact absurd (List.contains_iff_mem.mp old) (fresh (source, e) List.mem_cons_self)
  | case3 seen source e rest new reached seen' reads ih =>
    obtain ⟨first, others⟩ := List.nodup_cons.mp distinct
    rw [reads] at ih
    have later : ∀ x ∈ rest, x.1 ∉ source :: seen := by
      intro x member
      rw [List.mem_cons, not_or]
      refine ⟨?_, fresh x (List.mem_cons_of_mem _ member)⟩
      rintro rfl
      exact first (List.mem_map.mpr ⟨x, member, rfl⟩)
    exact congrArg (List.cons (source, e)) (ih others later)

section

variable {nodes : List Node} {edges : List Edge} {changed : List String} {k : Nat}
  {seen frontier : List Nat}

/-- The position is that of an id with some property. -/
def At (nodes : List Node) (edges : List Edge) (P : String → Prop) (i : Nat) : Prop :=
  ∃ id, (Adjacency.ofParts nodes edges).position? id = some i ∧ P id

theorem at_iff {P : String → Prop} {id : String} {i : Nat}
    (found : (Adjacency.ofParts nodes edges).position? id = some i) : At nodes edges P i ↔ P id := by
  constructor
  · rintro ⟨id', found', holds⟩
    rwa [Adjacency.position?_inj found found']
  · exact fun holds => ⟨id, found, holds⟩

/-- The search has come to a distance: it has seen all positions up to it, and goes on from those at
it. -/
structure Explored (nodes : List Node) (edges : List Edge) (changed : List String) (k : Nat)
    (seen frontier : List Nat) : Prop where
  seen : ∀ i, i ∈ seen ↔ At nodes edges (fun id => ∃ m ≤ k, Reaches nodes edges changed m id) i
  frontier : ∀ i, i ∈ frontier ↔ At nodes edges (Distance nodes edges changed k) i

/-- A step lists the positions at a distance, each once and with an edge to the distance before. -/
structure Tier (nodes : List Node) (edges : List Edge) (changed : List String) (k : Nat)
    (tier : List (Nat × Edge)) : Prop where
  once : (tier.map Prod.fst).Nodup
  exact : ∀ i, i ∈ tier.map Prod.fst ↔ At nodes edges (Distance nodes edges changed (k + 1)) i
  via : ∀ x ∈ tier, DependsBy nodes edges x.2 ∧
    (Adjacency.ofParts nodes edges).position? x.2.source = some x.1 ∧
      Distance nodes edges changed k x.2.target

theorem mem_dependencyKinds (kind : EdgeKind) :
    kind ∈ dependencyKinds ↔ kind = .calls ∨ kind = .imports ∨ kind = .extends := by
  simp [dependencyKinds]

/-- The edges that enter the positions at a distance are those by which something depends on an id
there. -/
theorem mem_entering (explored : Explored nodes edges changed k seen frontier) {x : Nat × Edge} :
    x ∈ frontier.flatMap (fun position =>
        (Adjacency.ofParts nodes edges).incoming position dependencyKinds) ↔
      DependsBy nodes edges x.2 ∧
        (Adjacency.ofParts nodes edges).position? x.2.source = some x.1 ∧
          Distance nodes edges changed k x.2.target := by
  obtain ⟨i, e⟩ := x
  rw [List.mem_flatMap]
  constructor
  · rintro ⟨j, inFrontier, entering⟩
    obtain ⟨listed, kind, source, target⟩ := Adjacency.mem_incoming.mp entering
    have depends : DependsBy nodes edges e :=
      ⟨listed, (mem_dependencyKinds _).mp kind, Adjacency.exists_position?_iff.mp ⟨i, source⟩,
        Adjacency.exists_position?_iff.mp ⟨j, target⟩⟩
    exact ⟨depends, source, (at_iff target).mp ((explored.frontier j).mp inFrontier)⟩
  · rintro ⟨depends, source, distance⟩
    obtain ⟨j, target⟩ := Adjacency.exists_position?_iff.mpr depends.target
    refine ⟨j, (explored.frontier j).mpr ((at_iff target).mpr distance), ?_⟩
    exact Adjacency.mem_incoming.mpr
      ⟨depends.listed, (mem_dependencyKinds _).mpr depends.kind, source, target⟩

/-- One step from a distance lists the next one. -/
theorem step_tier (explored : Explored nodes edges changed k seen frontier) :
    Tier nodes edges changed k (step (Adjacency.ofParts nodes edges) seen frontier).1 := by
  refine ⟨(newlyReached_new _ _).1, ?_, ?_⟩
  · intro i
    rw [step, mem_newlyReached, explored.seen, List.mem_map]
    constructor
    · rintro ⟨⟨x, entering, rfl⟩, new⟩
      obtain ⟨depends, source, distance⟩ := (mem_entering explored).mp entering
      rw [at_iff source] at new ⊢
      rw [distance_succ_iff]
      exact ⟨⟨x.2, depends, rfl, distance⟩, fun m le reaches => new ⟨m, le, reaches⟩⟩
    · rintro ⟨id, found, farther⟩
      obtain ⟨⟨e, depends, rfl, distance⟩, least⟩ := distance_succ_iff.mp farther
      refine ⟨⟨(i, e), (mem_entering explored).mpr ⟨depends, found, distance⟩, rfl⟩, ?_⟩
      rw [at_iff found]
      rintro ⟨m, le, reaches⟩
      exact least m le reaches
  · intro x member
    exact (mem_entering explored).mp ((newlyReached_sublist _ _).subset member)

/-- One step from a distance comes to the next one. -/
theorem step_explored (explored : Explored nodes edges changed k seen frontier) :
    Explored nodes edges changed (k + 1) (step (Adjacency.ofParts nodes edges) seen frontier).2
      ((step (Adjacency.ofParts nodes edges) seen frontier).1.map Prod.fst) := by
  have tier := step_tier explored
  refine ⟨?_, tier.exact⟩
  intro i
  have split := mem_newlyReached_seen seen (frontier.flatMap fun position =>
    (Adjacency.ofParts nodes edges).incoming position dependencyKinds) i
  rw [step, split, explored.seen]
  have reached := tier.exact i
  rw [step] at reached
  rw [reached]
  constructor
  · rintro (⟨id, found, nearer⟩ | ⟨id, found, distance⟩)
    · exact ⟨id, found, reaches_le_succ_iff.mpr (.inl nearer)⟩
    · exact ⟨id, found, reaches_le_succ_iff.mpr (.inr distance)⟩
  · rintro ⟨id, found, reaches⟩
    rw [at_iff found, at_iff found]
    exact reaches_le_succ_iff.mp reaches

/-- Any number of steps from a distance list the next ones. -/
theorem tiers_tier (explored : Explored nodes edges changed k seen frontier) (n : Nat) {j : Nat}
    (inside : j < n) :
    ∃ tier, (tiers (Adjacency.ofParts nodes edges) n seen frontier)[j]? = some tier ∧
      Tier nodes edges changed (k + j) tier := by
  induction n generalizing k seen frontier j with
  | zero => exact absurd inside (Nat.not_lt_zero j)
  | succ n ih =>
    cases j with
    | zero => exact ⟨_, rfl, step_tier explored⟩
    | succ j =>
      obtain ⟨tier, found, holds⟩ := ih (step_explored explored) (Nat.lt_of_succ_lt_succ inside)
      refine ⟨tier, found, ?_⟩
      rwa [Nat.add_right_comm k 1 j] at holds

end

/-! ### Depths -/

section

variable {nodes : List Node} {edges : List Edge} {changed : List String} {k : Nat}
  {tier : List (Nat × Edge)}

theorem nodup_eraseDups (ids : List String) : ids.eraseDups.Nodup := by
  induction size : ids.length using Nat.strongRecOn generalizing ids with
  | ind n ih =>
    cases ids with
    | nil => simp
    | cons id rest =>
      rw [List.eraseDups_cons, List.nodup_cons]
      constructor
      · simp [List.mem_eraseDups]
      · apply ih (rest.filter fun b => ! b == id).length _ _ rfl
        rw [← size, List.length_cons]
        exact Nat.lt_succ_of_le (List.length_filter_le _ _)

/-- The search starts at the distance zero. -/
theorem start_explored (nodes : List Node) (edges : List Edge) (changed : List String) :
    Explored nodes edges changed 0
      (changed.eraseDups.filterMap (Adjacency.ofParts nodes edges).position?)
      (changed.eraseDups.filterMap (Adjacency.ofParts nodes edges).position?) := by
  have start : ∀ i, i ∈ changed.eraseDups.filterMap (Adjacency.ofParts nodes edges).position? ↔
      At nodes edges (Distance nodes edges changed 0) i := by
    intro i
    simp only [List.mem_filterMap, List.mem_eraseDups, At, distance_zero_iff]
    constructor
    · rintro ⟨id, listed, found⟩
      exact ⟨id, found, listed, Adjacency.exists_position?_iff.mp ⟨i, found⟩⟩
    · rintro ⟨id, found, listed, -⟩
      exact ⟨id, listed, found⟩
  refine ⟨?_, start⟩
  intro i
  rw [start]
  constructor
  · rintro ⟨id, found, reaches, -⟩
    exact ⟨id, found, 0, Nat.le_refl 0, reaches⟩
  · rintro ⟨id, found, m, le, reaches⟩
    obtain rfl := Nat.le_zero.mp le
    exact ⟨id, found, reaches, fun m less => absurd less (Nat.not_lt_zero m)⟩

/-- A depth of an impact lists the ids at a distance, each once, with what the first node of each id
says and an edge by which it depends on an id of the depth before. -/
structure Lists (nodes : List Node) (edges : List Edge) (changed : List String) (k : Nat)
    (previous : List String) (affected : List Affected) : Prop where
  once : (affected.map Affected.id).Nodup
  exact : ∀ id, id ∈ affected.map Affected.id ↔ Distance nodes edges changed k id
  node : ∀ a ∈ affected, ∃ n, nodes.find? (·.id == a.id) = some n ∧ a.label = n.label ∧
    a.kind = n.kind ∧ a.filePath = n.filePath
  via : ∀ a ∈ affected, ∃ e, DependsBy nodes edges e ∧ e.source = a.id ∧ e.kind = a.via ∧
    e.confidence = a.confidence ∧ e.target ∈ previous

/-- What is known of a position that an edge leads from. -/
theorem affected?_eq {x : Nat × Edge}
    (source : (Adjacency.ofParts nodes edges).position? x.2.source = some x.1) :
    ∃ n, nodes.find? (·.id == x.2.source) = some n ∧ n.id = x.2.source ∧
      affected? (Adjacency.ofParts nodes edges) x =
        some ⟨n.id, n.label, n.kind, n.filePath, x.2.kind, x.2.confidence⟩ := by
  obtain ⟨n, here, same, first⟩ := Adjacency.node_of_position? source
  refine ⟨n, first, same, ?_⟩
  have found : (Adjacency.ofParts nodes edges).node? x.1 = some n := by
    simpa [Adjacency.node?, Adjacency.ofParts] using here
  rw [affected?, found, Option.map_some]

theorem ids_affected {reached : List (Nat × Edge)}
    (positions : ∀ x ∈ reached, (Adjacency.ofParts nodes edges).position? x.2.source = some x.1) :
    (reached.filterMap (affected? (Adjacency.ofParts nodes edges))).map Affected.id =
      reached.map (·.2.source) := by
  have sources : ∀ x ∈ reached, (affected? (Adjacency.ofParts nodes edges) x).map Affected.id =
      some x.2.source := by
    intro x member
    obtain ⟨n, -, same, found⟩ := affected?_eq (positions x member)
    rw [found, Option.map_some, same]
  rw [List.map_filterMap, List.filterMap_congr sources]
  exact congrFun List.filterMap_eq_map reached

/-- What is reached at different positions has different ids. -/
theorem nodup_affected {reached : List (Nat × Edge)}
    (positions : ∀ x ∈ reached, (Adjacency.ofParts nodes edges).position? x.2.source = some x.1)
    (once : (reached.map Prod.fst).Nodup) :
    ((reached.filterMap (affected? (Adjacency.ofParts nodes edges))).map Affected.id).Nodup := by
  rw [ids_affected positions]
  apply List.Nodup.of_map (Adjacency.ofParts nodes edges).position?
  have alike : (reached.map (·.2.source)).map (Adjacency.ofParts nodes edges).position? =
      (reached.map Prod.fst).map some := by
    rw [List.map_map, List.map_map]
    exact List.map_congr_left positions
  rw [alike]
  exact once.map fun _ _ same => Option.some.inj same

theorem Tier.lists (holds : Tier nodes edges changed k tier) {previous : List String}
    (before : ∀ id, Distance nodes edges changed k id → id ∈ previous) :
    Lists nodes edges changed (k + 1) previous
      (tier.filterMap (affected? (Adjacency.ofParts nodes edges))) := by
  have positions : ∀ x ∈ tier, (Adjacency.ofParts nodes edges).position? x.2.source = some x.1 :=
    fun x member => (holds.via x member).2.1
  have found : ∀ a ∈ tier.filterMap (affected? (Adjacency.ofParts nodes edges)),
      ∃ x ∈ tier, ∃ n, nodes.find? (·.id == a.id) = some n ∧ x.2.source = a.id ∧
        a = ⟨n.id, n.label, n.kind, n.filePath, x.2.kind, x.2.confidence⟩ := by
    intro a listed
    obtain ⟨x, member, made⟩ := List.mem_filterMap.mp listed
    obtain ⟨n, first, same, known⟩ := affected?_eq (positions x member)
    obtain rfl := Option.some.inj (known.symm.trans made)
    exact ⟨x, member, n, by rwa [same], same.symm, rfl⟩
  constructor
  · exact nodup_affected positions holds.once
  · intro id
    rw [ids_affected positions, List.mem_map]
    constructor
    · rintro ⟨x, member, rfl⟩
      have exact := (holds.exact x.1).mp (List.mem_map_of_mem member)
      exact (at_iff (positions x member)).mp exact
    · intro distance
      obtain ⟨i, position⟩ := Adjacency.exists_position?_iff.mpr distance.1.known
      obtain ⟨x, member, rfl⟩ := List.mem_map.mp ((holds.exact i).mpr ⟨id, position, distance⟩)
      exact ⟨x, member, Adjacency.position?_inj (positions x member) position⟩
  · intro a listed
    obtain ⟨x, -, n, first, -, rfl⟩ := found a listed
    exact ⟨n, first, rfl, rfl, rfl⟩
  · intro a listed
    obtain ⟨x, member, n, -, source, rfl⟩ := found a listed
    obtain ⟨depends, -, distance⟩ := holds.via x member
    exact ⟨x.2, depends, source, rfl, rfl, before _ distance⟩

/-! ### Impacts -/

/-- What the impact of a change is: the depths list the ids at the first three distances, what is
unknown are the changed ids that no node has, and the affected flows are those, in order, with a step
among the changed ids or in the first two depths. -/
structure Exact (changed : List String) (nodes : List Node) (edges : List Edge) (flows : List Flow)
    (i : Impact) : Prop where
  depth1 : Lists nodes edges changed 1 (changed.filter (· ∈ nodes.map Node.id)) i.depth1
  depth2 : Lists nodes edges changed 2 (i.depth1.map Affected.id) i.depth2
  depth3 : Lists nodes edges changed 3 (i.depth2.map Affected.id) i.depth3
  apart : [changed, i.depth1.map Affected.id, i.depth2.map Affected.id,
    i.depth3.map Affected.id].Pairwise List.Disjoint
  unknown : i.unknown.Nodup ∧
    ∀ id, id ∈ i.unknown ↔ id ∈ changed ∧ id ∉ nodes.map Node.id
  flows : i.affectedFlows = flows.filter fun f => ∃ s ∈ f.steps, s ∈ changed ∨
    s ∈ i.depth1.map Affected.id ∨ s ∈ i.depth2.map Affected.id

/-- The depths of an impact are what the steps of the search list. -/
theorem exists_tier (changed : List String) (nodes : List Node) (edges : List Edge) {j : Nat}
    (inside : j < 3) :
    ∃ tier, Tier nodes edges changed j tier ∧
      ((((tiers (Adjacency.ofParts nodes edges) 3
          (changed.eraseDups.filterMap (Adjacency.ofParts nodes edges).position?)
          (changed.eraseDups.filterMap (Adjacency.ofParts nodes edges).position?)).map fun tier =>
        tier.filterMap (affected? (Adjacency.ofParts nodes edges)))[j]?).getD []) =
        tier.filterMap (affected? (Adjacency.ofParts nodes edges)) := by
  obtain ⟨tier, found, holds⟩ := tiers_tier (start_explored nodes edges changed) 3 inside
  rw [Nat.zero_add] at holds
  refine ⟨tier, holds, ?_⟩
  rw [List.getElem?_map, found, Option.map_some, Option.getD_some]

/-- The first depth of the change of a known id is what one step from its position reaches. -/
theorem depth1_eq {id : String} {i : Nat} (flows : List Flow)
    (found : (Adjacency.ofParts nodes edges).position? id = some i) :
    (ofChange [id] nodes edges flows).depth1 =
      (newlyReached [i] ((Adjacency.ofParts nodes edges).incoming i dependencyKinds)).1.filterMap
        (affected? (Adjacency.ofParts nodes edges)) := by
  have start : [id].eraseDups.filterMap (Adjacency.ofParts nodes edges).position? = [i] := by
    simp [List.eraseDups_cons, found]
  simp only [ofChange, start, tiers, step, List.flatMap_cons, List.flatMap_nil, List.append_nil]
  rfl

/-- Lists of ids at different distances have nothing in common. -/
theorem Lists.disjoint {j k : Nat} {previous previous' : List String} {xs ys : List Affected}
    (hx : Lists nodes edges changed j previous xs) (hy : Lists nodes edges changed k previous' ys)
    (different : j ≠ k) : (xs.map Affected.id).Disjoint (ys.map Affected.id) := by
  intro id inXs inYs
  exact different (((hx.exact id).mp inXs).unique ((hy.exact id).mp inYs))

theorem Lists.disjoint_changed {k : Nat} {previous : List String} {xs : List Affected}
    (hx : Lists nodes edges changed (k + 1) previous xs) :
    changed.Disjoint (xs.map Affected.id) := by
  intro id inChanged inXs
  have far := (hx.exact id).mp inXs
  have near : Distance nodes edges changed 0 id :=
    distance_zero_iff.mpr ⟨inChanged, far.1.known⟩
  exact absurd (near.unique far) (Nat.succ_ne_zero k).symm

/-- The changed ids and the first three depths have nothing in common. -/
theorem Lists.apart {before1 before2 before3 : List String} {xs ys zs : List Affected}
    (first : Lists nodes edges changed 1 before1 xs) (second : Lists nodes edges changed 2 before2 ys)
    (third : Lists nodes edges changed 3 before3 zs) :
    [changed, xs.map Affected.id, ys.map Affected.id, zs.map Affected.id].Pairwise
      List.Disjoint := by
  simp only [List.pairwise_cons, List.mem_cons, List.not_mem_nil, or_false, forall_eq_or_imp,
    forall_eq, List.Pairwise.nil, and_true, false_implies, implies_true]
  exact ⟨⟨first.disjoint_changed, second.disjoint_changed, third.disjoint_changed⟩,
    ⟨first.disjoint second (by decide), first.disjoint third (by decide)⟩,
    second.disjoint third (by decide)⟩

/-- What is unknown are the changed ids that no node has. -/
theorem mem_unknown {flows : List Flow} {id : String} :
    id ∈ (ofChange changed nodes edges flows).unknown ↔
      id ∈ changed ∧ id ∉ nodes.map Node.id := by
  have known : (∃ i, (Adjacency.ofParts nodes edges).position? id = some i) ↔
      id ∈ nodes.map Node.id := Adjacency.exists_position?_iff
  show id ∈ changed.eraseDups.filter _ ↔ _
  rw [List.mem_filter, List.mem_eraseDups, Option.isNone_iff_eq_none,
    Option.eq_none_iff_forall_ne_some, ← known, not_exists]

/-- The impact of a change is exact, whatever the nodes and edges are. -/
theorem ofChange_exact (changed : List String) (nodes : List Node) (edges : List Edge)
    (flows : List Flow) : Exact changed nodes edges flows (ofChange changed nodes edges flows) := by
  obtain ⟨tier1, holds1, eq1⟩ := exists_tier changed nodes edges (j := 0) (by decide)
  obtain ⟨tier2, holds2, eq2⟩ := exists_tier changed nodes edges (j := 1) (by decide)
  obtain ⟨tier3, holds3, eq3⟩ := exists_tier changed nodes edges (j := 2) (by decide)
  change (ofChange changed nodes edges flows).depth1 = _ at eq1
  change (ofChange changed nodes edges flows).depth2 = _ at eq2
  change (ofChange changed nodes edges flows).depth3 = _ at eq3
  have first : Lists nodes edges changed 1 (changed.filter (· ∈ nodes.map Node.id))
      (ofChange changed nodes edges flows).depth1 := by
    rw [eq1]
    apply holds1.lists
    intro id distance
    simpa using distance_zero_iff.mp distance
  have second : Lists nodes edges changed 2
      ((ofChange changed nodes edges flows).depth1.map Affected.id)
      (ofChange changed nodes edges flows).depth2 := by
    rw [eq2]
    exact holds2.lists fun id distance => (first.exact id).mpr distance
  have third : Lists nodes edges changed 3
      ((ofChange changed nodes edges flows).depth2.map Affected.id)
      (ofChange changed nodes edges flows).depth3 := by
    rw [eq3]
    exact holds3.lists fun id distance => (second.exact id).mpr distance
  refine ⟨first, second, third, first.apart second third, ⟨?_, fun id => mem_unknown⟩, ?_⟩
  · exact (nodup_eraseDups changed).filter _
  · apply List.filter_congr
    intro f _
    simp only [List.any_eq, List.contains_iff_mem, List.mem_append, List.mem_eraseDups, or_assoc]
    rfl

end

end CodeAtlas.Impact
