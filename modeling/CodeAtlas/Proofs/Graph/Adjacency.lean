import CodeAtlas.Graph.Adjacency
import Mathlib.Data.List.Basic

/-!
# Nodes by position

The position of an id is that of the first node that has it, so that each known id has one position
and no two ids share one. A position is entered, and left, by exactly those edges of the wanted kinds
that have both their ends among the nodes and one of them there. It does not matter what else the nodes
say, and edges of one sort are found whatever others there are.
-/

namespace CodeAtlas

/-! ### Positions -/

theorem getElem?_foldl_insertIfNew (entries : List (Node × Nat)) (found : Std.HashMap String Nat)
    (id : String) :
    (entries.foldl (fun found x => found.insertIfNew x.1.id x.2) found)[id]? =
      (found[id]?).or ((entries.find? (·.1.id == id)).map Prod.snd) := by
  induction entries generalizing found with
  | nil => simp
  | cons x rest ih =>
    rw [List.foldl_cons, ih, Std.HashMap.getElem?_insertIfNew]
    by_cases same : x.1.id = id
    · subst same
      by_cases known : x.1.id ∈ found
      · simp [known]
      · simp [known]
    · simp [same]

theorem find?_zipIdx (nodes : List Node) (id : String) (k : Nat) :
    ((nodes.zipIdx k).find? (·.1.id == id)).map Prod.snd =
      (nodes.findIdx? (·.id == id)).map (· + k) := by
  induction nodes generalizing k with
  | nil => rfl
  | cons n rest ih =>
    by_cases same : n.id = id
    · simp [List.findIdx?_cons, same]
    · have later := ih (k + 1)
      cases found : rest.findIdx? (·.id == id) with
      | none => simpa [List.findIdx?_cons, same, found] using later
      | some i =>
        rw [found] at later
        simp [List.findIdx?_cons, same, found, later]
        omega

namespace Adjacency

section

variable {nodes : List Node} {edges : List Edge} {id id' : String} {i j : Nat}

theorem position?_eq (nodes : List Node) (edges : List Edge) (id : String) :
    (ofParts nodes edges).position? id = nodes.findIdx? (·.id == id) := by
  have fold := getElem?_foldl_insertIfNew nodes.zipIdx {} id
  rw [find?_zipIdx] at fold
  refine fold.trans ?_
  simp

/-- The position of an id is that of a node that has it. -/
theorem node_of_position? (found : (ofParts nodes edges).position? id = some i) :
    ∃ n, nodes[i]? = some n ∧ n.id = id ∧ nodes.find? (·.id == id) = some n := by
  rw [position?_eq] at found
  obtain ⟨inside, here, before⟩ := List.findIdx?_eq_some_iff_getElem.mp found
  refine ⟨nodes[i], List.getElem?_eq_getElem inside, by simpa using here, ?_⟩
  rw [List.find?_eq_some_iff_getElem]
  exact ⟨here, i, inside, rfl, fun j order => by simpa using before j order⟩

theorem idAt_of_position? (found : (ofParts nodes edges).position? id = some i) :
    (ofParts nodes edges).idAt i = id := by
  obtain ⟨n, here, rfl, -⟩ := node_of_position? found
  simp [idAt, node?, ofParts, here]

/-- A position that some id has is that of the id of its own node. -/
theorem position?_idAt (known : ∃ id, (ofParts nodes edges).position? id = some i) :
    (ofParts nodes edges).position? ((ofParts nodes edges).idAt i) = some i := by
  obtain ⟨id, found⟩ := known
  rwa [idAt_of_position? found]

theorem position?_inj (found : (ofParts nodes edges).position? id = some i)
    (found' : (ofParts nodes edges).position? id' = some i) : id = id' :=
  (idAt_of_position? found).symm.trans (idAt_of_position? found')

theorem position?_lt (found : (ofParts nodes edges).position? id = some i) : i < nodes.length := by
  obtain ⟨n, here, -⟩ := node_of_position? found
  exact (List.getElem?_eq_some_iff.mp here).1

/-- Where ids are distinct, every position of a node is that of its id. -/
theorem position?_of_getElem? (ids : (nodes.map Node.id).Nodup) {n : Node}
    (here : nodes[i]? = some n) : (ofParts nodes edges).position? n.id = some i := by
  obtain ⟨inside, rfl⟩ := List.getElem?_eq_some_iff.mp here
  rw [position?_eq, List.findIdx?_eq_some_iff_getElem]
  refine ⟨inside, beq_self_eq_true _, ?_⟩
  intro j before same
  have apart := List.pairwise_iff_getElem.mp (List.pairwise_map.mp ids)
  exact apart j i (Nat.lt_trans before inside) inside before (beq_iff_eq.mp same)

/-- An id has a position if a node has the id. -/
theorem exists_position?_iff :
    (∃ i, (ofParts nodes edges).position? id = some i) ↔ id ∈ nodes.map Node.id := by
  rw [position?_eq, ← Option.isSome_iff_exists, List.findIdx?_isSome]
  simp [List.any_eq_true]

end

/-! ### Edges by position -/

section

variable {links : List Link} {key : Link → Nat} {size i : Nat}

theorem size_groupBy (key : Link → Nat) (size : Nat) (links : List Link) :
    (groupBy key size links).size = size := by
  induction links with
  | nil => simp [groupBy]
  | cons l rest ih => simpa [groupBy] using ih

theorem getElem?_groupBy (inside : i < size) :
    (groupBy key size links)[i]? = some (links.filter fun l => key l == i) := by
  induction links with
  | nil => simp [groupBy, inside]
  | cons l rest ih =>
    show ((groupBy key size rest).modify (key l) (l :: ·))[i]? = _
    rw [Array.getElem?_modify, ih]
    by_cases same : key l = i
    · simp [same]
    · simp [same]

/-- The group of a position are the links with one of their ends there, in order. -/
theorem getD_groupBy (bounded : ∀ l ∈ links, key l < size) (i : Nat) :
    ((groupBy key size links)[i]?).getD [] = links.filter fun l => key l == i := by
  by_cases inside : i < size
  · rw [getElem?_groupBy inside, Option.getD_some]
  · have none : (groupBy key size links)[i]? = none := by
      rw [Array.getElem?_eq_none_iff, size_groupBy]
      exact Nat.le_of_not_lt inside
    rw [none, Option.getD_none, eq_comm, List.filter_eq_nil_iff]
    intro l member here
    exact inside (beq_iff_eq.mp here ▸ bounded l member)

end

section

variable {nodes : List Node} {edges : List Edge} {kinds : List EdgeKind} {i j : Nat} {e : Edge}

/-- An edge leads from one position to another one. -/
def Joins (ix : Adjacency) (e : Edge) (i j : Nat) : Prop :=
  ix.position? e.source = some i ∧ ix.position? e.target = some j

/-- The links are the edges both of whose ends are known, with the positions of these. -/
theorem linksOf_eq (nodes : List Node) (edges : List Edge) :
    linksOf (positionsById nodes) edges = edges.filterMap fun e =>
      ((ofParts nodes edges).position? e.source).bind fun i =>
        ((ofParts nodes edges).position? e.target).map fun j => ⟨i, j, e⟩ := by
  unfold linksOf
  apply List.filterMap_congr
  intro e _
  show _ = ((positionsById nodes)[e.source]?).bind fun i =>
    ((positionsById nodes)[e.target]?).map fun j => _
  cases (positionsById nodes)[e.source]? <;> cases (positionsById nodes)[e.target]? <;> rfl

/-- The links that have one of their ends at a position are followed to the other end: they are the
edges of the wanted kinds with a near end there, in their order, each with its far end. -/
theorem follow_eq (make : Nat → Nat → Edge → Link) {near far : Edge → Option Nat}
    {key other : Link → Nat} {size : Nat} {links : List Link}
    (made : ∀ i j e, key (make i j e) = i ∧ other (make i j e) = j ∧ (make i j e).edge = e)
    (linked : links = edges.filterMap fun e =>
      (near e).bind fun i => (far e).map fun j => make i j e)
    (bounded : ∀ e i, near e = some i → i < size) (i : Nat) (kinds : List EdgeKind) :
    ((((groupBy key size links)[i]?).getD []).filter fun l => kinds.contains l.edge.kind).map
        (fun l => (other l, l.edge)) = edges.filterMap fun e =>
      if e.kind ∈ kinds ∧ near e = some i then (far e).map (·, e) else none := by
  have inside : ∀ l ∈ links, key l < size := by
    intro l member
    rw [linked, List.mem_filterMap] at member
    obtain ⟨e, -, found⟩ := member
    obtain ⟨i, here, found⟩ := Option.bind_eq_some_iff.mp found
    obtain ⟨j, -, rfl⟩ := Option.map_eq_some_iff.mp found
    rw [(made i j e).1]
    exact bounded e i here
  rw [getD_groupBy inside, linked, List.filter_filterMap, List.filter_filterMap, List.map_filterMap]
  apply List.filterMap_congr
  intro e _
  cases near e with
  | none => simp
  | some i' =>
    cases far e with
    | none => simp
    | some j =>
      by_cases here : i' = i
      · by_cases wanted : e.kind ∈ kinds <;> simp [here, wanted, made, Option.filter]
      · simp [here, made, Option.filter]

/-- A position is left by the edges of the wanted kinds that start there, in their order, each with
the position it leads to. -/
theorem outgoing_eq (nodes : List Node) (edges : List Edge) (i : Nat) (kinds : List EdgeKind) :
    (ofParts nodes edges).outgoing i kinds = edges.filterMap fun e =>
      if e.kind ∈ kinds ∧ (ofParts nodes edges).position? e.source = some i then
        ((ofParts nodes edges).position? e.target).map (·, e)
      else none :=
  follow_eq Link.mk (fun _ _ _ => ⟨rfl, rfl, rfl⟩) (linksOf_eq nodes edges)
    (fun _ _ => position?_lt) i kinds

/-- A position is entered by the edges of the wanted kinds that lead there, in their order, each with
the position it comes from. -/
theorem incoming_eq (nodes : List Node) (edges : List Edge) (j : Nat) (kinds : List EdgeKind) :
    (ofParts nodes edges).incoming j kinds = edges.filterMap fun e =>
      if e.kind ∈ kinds ∧ (ofParts nodes edges).position? e.target = some j then
        ((ofParts nodes edges).position? e.source).map (·, e)
      else none := by
  have linked : linksOf (positionsById nodes) edges = edges.filterMap fun e =>
      ((ofParts nodes edges).position? e.target).bind fun j =>
        ((ofParts nodes edges).position? e.source).map fun i => ⟨i, j, e⟩ := by
    rw [linksOf_eq]
    apply List.filterMap_congr
    intro e _
    cases (ofParts nodes edges).position? e.source <;>
      cases (ofParts nodes edges).position? e.target <;> rfl
  exact follow_eq (fun j i e => ⟨i, j, e⟩) (fun _ _ _ => ⟨rfl, rfl, rfl⟩) linked
    (fun _ _ => position?_lt) j kinds

theorem mem_scan {near far : Edge → Option Nat} :
    (j, e) ∈ edges.filterMap (fun e =>
        if e.kind ∈ kinds ∧ near e = some i then (far e).map (·, e) else none) ↔
      e ∈ edges ∧ e.kind ∈ kinds ∧ near e = some i ∧ far e = some j := by
  rw [List.mem_filterMap]
  constructor
  · intro ⟨e', member, found⟩
    obtain ⟨⟨kind, here⟩, found⟩ := Option.ite_none_right_eq_some.mp found
    obtain ⟨j', there, same⟩ := Option.map_eq_some_iff.mp found
    obtain ⟨rfl, rfl⟩ := Prod.mk.inj same
    exact ⟨member, kind, here, there⟩
  · intro ⟨member, kind, here, there⟩
    exact ⟨e, member, by rw [if_pos ⟨kind, here⟩, there, Option.map_some]⟩

/-- A position is entered by the edges of the wanted kinds that lead there. -/
theorem mem_incoming : (i, e) ∈ (ofParts nodes edges).incoming j kinds ↔
    e ∈ edges ∧ e.kind ∈ kinds ∧ (ofParts nodes edges).Joins e i j := by
  rw [incoming_eq, mem_scan, Joins, and_comm (b := (ofParts nodes edges).position? e.source = some i)]

/-- A position is left by the edges of the wanted kinds that start there. -/
theorem mem_outgoing : (j, e) ∈ (ofParts nodes edges).outgoing i kinds ↔
    e ∈ edges ∧ e.kind ∈ kinds ∧ (ofParts nodes edges).Joins e i j := by
  rw [outgoing_eq, mem_scan, Joins]

/-! ### Parts of the edges and of the nodes -/

/-- The edges of some sort that leave a position are those that leave it where no others are. -/
theorem outgoing_filter (keep : Edge → Bool) :
    ((ofParts nodes edges).outgoing i kinds).filter (keep ·.2) =
      (ofParts nodes (edges.filter keep)).outgoing i kinds := by
  rw [outgoing_eq, outgoing_eq, List.filter_filterMap, List.filterMap_filter]
  apply List.filterMap_congr
  intro e _
  rw [position?_eq, position?_eq, position?_eq, position?_eq]
  cases nodes.findIdx? (·.id == e.target) with
  | none => by_cases kept : keep e = true <;> simp [kept]
  | some j =>
    by_cases starts : e.kind ∈ kinds ∧ nodes.findIdx? (·.id == e.source) = some i
    · by_cases kept : keep e = true <;> simp [starts, kept, Option.filter]
    · by_cases kept : keep e = true <;> simp [starts, kept]

theorem positionsById_eq (nodes : List Node) : positionsById nodes =
    (nodes.map Node.id).zipIdx.foldl (fun found x => found.insertIfNew x.1 x.2) {} := by
  rw [List.zipIdx_map, List.foldl_map]
  rfl

/-- Which edges leave and enter a position is told by the ids of the nodes. -/
theorem links_congr {nodes' : List Node} (ids : nodes.map Node.id = nodes'.map Node.id)
    (edges : List Edge) :
    (ofParts nodes edges).outgoingLinks = (ofParts nodes' edges).outgoingLinks ∧
      (ofParts nodes edges).incomingLinks = (ofParts nodes' edges).incomingLinks := by
  have positions : positionsById nodes = positionsById nodes' := by
    rw [positionsById_eq, positionsById_eq, ids]
  have sizes : nodes.length = nodes'.length := by
    simpa using congrArg List.length ids
  unfold ofParts
  rw [positions, sizes]
  exact ⟨rfl, rfl⟩

end

end Adjacency

end CodeAtlas
