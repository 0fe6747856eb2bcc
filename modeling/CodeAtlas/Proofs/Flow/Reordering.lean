import CodeAtlas.Proofs.Flow.Renaming
import CodeAtlas.Proofs.Graph.Renaming

/-!
# Flows do not depend on the order of a graph

Nodes that come in another order are the same nodes under other positions. If ids are distinct and
certainties are numbers, and if no node calls another one twice, the flows are the same, whatever the
order of the nodes and of the edges.
-/

namespace CodeAtlas

/-- No node calls a node by two of the edges. -/
def CallsOnce (nodes : List Node) (edges : List Edge) : Prop :=
  edges.Pairwise fun e e' => e.kind = .calls → e'.kind = .calls → e.source ∈ nodes.map Node.id →
    e.target ∈ nodes.map Node.id → (e.source, e.target) ≠ (e'.source, e'.target)

instance (nodes : List Node) (edges : List Edge) : Decidable (CallsOnce nodes edges) :=
  inferInstanceAs (Decidable (edges.Pairwise _))

section

variable {σ : Nat → Nat} {nodes nodes' : List Node} {edges edges' : List Edge}

namespace Adjacency

theorem position?_renamed (edges edges' : List Edge) (ids : (nodes.map Node.id).Nodup) (perm : nodes.Perm nodes')
    (moved : ∀ i, nodes'[σ i]? = nodes[i]?) (id : String) :
    (ofParts nodes' edges').position? id = ((ofParts nodes edges).position? id).map σ := by
  cases found : (ofParts nodes edges).position? id with
  | some i =>
    obtain ⟨n, here, rfl, -⟩ := node_of_position? found
    exact position?_of_getElem? ((perm.map Node.id).nodup_iff.mp ids) ((moved i).trans here)
  | none =>
    rw [Option.map_none, Option.eq_none_iff_forall_ne_some]
    intro j found'
    have listed := exists_position?_iff.mp ⟨j, found'⟩
    obtain ⟨i, known⟩ : ∃ i, (ofParts nodes edges).position? id = some i :=
      exists_position?_iff.mpr ((perm.map Node.id).mem_iff.mpr listed)
    rw [found] at known
    cases known

/-- Edges between renamed positions are found with these. -/
theorem scan_renamed (injective : σ.Injective) {near near' far far' : Edge → Option Nat}
    (nearEnd : ∀ e, near' e = (near e).map σ) (farEnd : ∀ e, far' e = (far e).map σ)
    (perm : edges.Perm edges') (i : Nat) (kinds : List EdgeKind) :
    (edges'.filterMap fun e =>
      if e.kind ∈ kinds ∧ near' e = some (σ i) then (far' e).map (·, e) else none).Perm
      ((edges.filterMap fun e =>
        if e.kind ∈ kinds ∧ near e = some i then (far e).map (·, e) else none).map
          fun x => (σ x.1, x.2)) := by
  refine (perm.symm.filterMap _).trans (List.Perm.of_eq ?_)
  rw [List.map_filterMap]
  apply List.filterMap_congr
  intro e _
  have here : (near e).map σ = some (σ i) ↔ near e = some i :=
    (Option.map_injective injective).eq_iff (b := some i)
  simp only [nearEnd, farEnd, here]
  split
  · rw [Option.map_map, Option.map_map]
    rfl
  · rfl

end Adjacency

namespace FlowTrace

open Adjacency

/-- Lists in another order give renamed positions. -/
theorem Renames.ofParts (injective : σ.Injective) (moved : ∀ i, nodes'[σ i]? = nodes[i]?)
    (ids : (nodes.map Node.id).Nodup) (nodesPerm : nodes.Perm nodes')
    (edgesPerm : edges.Perm edges') :
    Renames σ (Adjacency.ofParts nodes edges) (Adjacency.ofParts nodes' edges') := by
  have positions := position?_renamed edges edges' ids nodesPerm moved
  refine ⟨injective, ?_, zipIdx_renamed injective moved nodesPerm.length_eq, ?_, ?_⟩
  · intro i
    simpa [Adjacency.node?, Adjacency.ofParts] using moved i
  · intro i
    rw [outgoing_eq, outgoing_eq]
    exact scan_renamed injective (fun e => positions e.source) (fun e => positions e.target)
      edgesPerm i _
  · intro i
    rw [incoming_eq, incoming_eq]
    exact scan_renamed injective (fun e => positions e.target) (fun e => positions e.source)
      edgesPerm i _

theorem Orderly.ofParts (ids : (nodes.map Node.id).Nodup)
    (numbers : ∀ e ∈ edges, Double.Number e.confidence) (once : CallsOnce nodes edges) :
    Orderly (Adjacency.ofParts nodes edges) := by
  have known : ∀ i < (Adjacency.ofParts nodes edges).size,
      ∃ id, (Adjacency.ofParts nodes edges).position? id = some i := by
    intro i inside
    have bound : i < nodes.length := by
      simpa [Adjacency.size, Adjacency.ofParts] using inside
    exact ⟨_, position?_of_getElem? ids (List.getElem?_eq_getElem bound)⟩
  refine ⟨?_, ?_, ?_, ?_⟩
  · intro i inside j inside' same
    exact (Flows.idAt_inj (known i inside) (known j inside')).mp same
  · rintro i ⟨j, e⟩ leaving
    simpa [Adjacency.size, Adjacency.ofParts] using position?_lt (mem_outgoing.mp leaving).2.2.2
  · intro i
    rw [outgoing_eq, List.Nodup, List.pairwise_map, List.pairwise_filterMap]
    refine once.imp ?_
    rintro e e' apart ⟨j, f⟩ found ⟨j', f'⟩ found' rfl
    obtain ⟨⟨kind, source⟩, leads⟩ := Option.ite_none_right_eq_some.mp found
    obtain ⟨⟨kind', source'⟩, leads'⟩ := Option.ite_none_right_eq_some.mp found'
    obtain ⟨k, target, same⟩ := Option.map_eq_some_iff.mp leads
    obtain ⟨k', target', same'⟩ := Option.map_eq_some_iff.mp leads'
    have agree : k' = k := (Prod.mk.inj same').1.trans (Prod.mk.inj same).1.symm
    refine apart (by simpa using kind) (by simpa using kind') (exists_position?_iff.mp ⟨i, source⟩)
      (exists_position?_iff.mp ⟨k, target⟩) ?_
    rw [position?_inj source source', position?_inj target (agree ▸ target')]
  · rintro i ⟨j, e⟩ leaving
    exact numbers e (mem_outgoing.mp leaving).1

end FlowTrace

namespace Flows

open FlowTrace

/-- The order of the nodes and of the edges does not matter for the flows. -/
theorem ofParts_reordered (ids : (nodes.map Node.id).Nodup)
    (numbers : ∀ e ∈ edges, Double.Number e.confidence) (once : CallsOnce nodes edges)
    (nodesPerm : nodes.Perm nodes') (edgesPerm : edges.Perm edges') (communities : List Community) :
    ofParts nodes' edges' communities = ofParts nodes edges communities := by
  obtain ⟨σ, injective, moved⟩ := exists_renaming nodesPerm
  have renames : Renames σ (Adjacency.ofParts nodes edges) (Adjacency.ofParts nodes' edges') :=
    Renames.ofParts injective moved ids nodesPerm edgesPerm
  have orderly : Orderly (Adjacency.ofParts nodes edges) := Orderly.ofParts ids numbers once
  rw [ofParts_eq, ofParts_eq]
  exact map_ofPath_renamed renames orderly _

/-- Two callees of one certainty, listed in either order. -/
theorem ofParts_reordered_fork :
    let main := Node.ofSymbol .function "main" "a.py" "python" 1 2
    let load := Node.ofSymbol .function "load" "a.py" "python" 3 4
    let save := Node.ofSymbol .function "save" "a.py" "python" 5 6
    let first := Edge.make main.id load.id .calls 0.85 "same-file"
    let second := Edge.make main.id save.id .calls 0.85 "same-file"
    (([main, load, save].map Node.id).Nodup ∧
      (∀ e ∈ [first, second], Double.Number e.confidence) ∧
      CallsOnce [main, load, save] [first, second] ∧
      [main, load, save].Perm [save, load, main] ∧ [first, second].Perm [second, first]) ∧
      ofParts [save, load, main] [second, first] [] = ofParts [main, load, save] [first, second] []
    := by
  intro main load save first second
  have ids : ([main, load, save].map Node.id).Nodup := by decide
  have numbers : ∀ e ∈ [first, second], Double.Number e.confidence := by
    intro e member
    have certain : (0.0 : Float) ≤ e.confidence := by
      rcases List.mem_pair.mp member with rfl | rfl <;> decide
    exact (Double.number_of_le certain).2
  have once : CallsOnce [main, load, save] [first, second] := by decide
  have nodesPerm : [main, load, save].Perm [save, load, main] := by
    exact (List.reverse_perm [main, load, save]).symm
  have edgesPerm : [first, second].Perm [second, first] := List.Perm.swap second first []
  exact ⟨⟨ids, numbers, once, nodesPerm, edgesPerm⟩,
    ofParts_reordered ids numbers once nodesPerm edgesPerm []⟩

end Flows

end

end CodeAtlas
