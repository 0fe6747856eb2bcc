import CodeAtlas.Proofs.Clustering.Clusters
import Mathlib.Data.Set.Card
import Mathlib.Data.Sym.Card

/-!
# Joined pairs of symbols

Pairs of positions stand for pairs of symbols: those that get a weight are the pairs of different
symbols that a call or an inheritance of enough certainty joins, each once. The share of the joined
pairs among all pairs of a community is its cohesion, which needs no rounding into the unit
interval.
-/

namespace CodeAtlas.Communities

open Clustering

/-! ### Tables of entries with distinct keys -/

section

variable {κ β : Type} [BEq κ] [Hashable κ] [LawfulBEq κ] [LawfulHashable κ]
  {entries : List (κ × β)} {k : κ} {v : β}

theorem getElem?_foldl_insert (distinct : (entries.map Prod.fst).Nodup) :
    (entries.foldl (fun found x => found.insert x.1 x.2) ({} : Std.HashMap κ β))[k]? = some v ↔
      (k, v) ∈ entries := by
  induction entries using List.reverseRecOn with
  | nil => simp
  | append_singleton rest last ih =>
    rw [List.map_append, List.nodup_append] at distinct
    obtain ⟨before, -, apart⟩ := distinct
    rw [List.foldl_append, List.foldl_cons, List.foldl_nil, Std.HashMap.getElem?_insert,
      List.mem_append, List.mem_singleton]
    by_cases same : last.1 = k
    · have absent : (k, v) ∉ rest := by
        intro member
        exact apart k (List.mem_map_of_mem member) last.1 (by simp) same.symm
      rw [if_pos (beq_iff_eq.mpr same)]
      constructor
      · intro found
        exact .inr (Prod.ext same.symm (Option.some.inj found).symm)
      · rintro (member | rfl)
        · exact absurd member absent
        · rfl
    · rw [if_neg (by simpa using same), ih before]
      constructor
      · exact .inl
      · rintro (member | rfl)
        · exact member
        · exact absurd rfl same

end

/-! ### Positions -/

/-- The id of the symbol at a position. -/
def idAt (symbols : List Node) (i : Nat) : String :=
  (symbols[i]?.map Node.id).getD ""

section

variable {symbols : List Node} {i j : Nat} {id : String}

theorem idAt_eq (inside : i < symbols.length) : idAt symbols i = symbols[i].id := by
  rw [idAt, List.getElem?_eq_getElem inside]
  rfl

theorem idAt_mem (inside : i < symbols.length) : idAt symbols i ∈ symbols.map Node.id := by
  rw [idAt_eq inside]
  exact List.mem_map_of_mem (List.getElem_mem inside)

theorem idAt_inj (distinct : (symbols.map Node.id).Nodup) (hi : i < symbols.length)
    (hj : j < symbols.length) : idAt symbols i = idAt symbols j ↔ i = j := by
  have hi' : i < (symbols.map Node.id).length := by rwa [List.length_map]
  have hj' : j < (symbols.map Node.id).length := by rwa [List.length_map]
  have places : (symbols.map Node.id)[i] = (symbols.map Node.id)[j] ↔ i = j :=
    distinct.getElem_inj_iff
  rwa [List.getElem_map, List.getElem_map, ← idAt_eq hi, ← idAt_eq hj] at places

theorem getElem?_positions (distinct : (symbols.map Node.id).Nodup) :
    (positions symbols)[id]? = some i ↔ i < symbols.length ∧ idAt symbols i = id := by
  have table : positions symbols = (symbols.zipIdx.map fun x => (x.1.id, x.2)).foldl
      (fun found x => found.insert x.1 x.2) {} := by
    rw [List.foldl_map]
    rfl
  have keys : (symbols.zipIdx.map fun x => (x.1.id, x.2)).map Prod.fst = symbols.map Node.id := by
    rw [List.map_map]
    conv => rhs; rw [← List.zipIdx_map_fst 0 symbols, List.map_map]
    rfl
  rw [table, getElem?_foldl_insert (by rwa [keys]), List.mem_map]
  constructor
  · rintro ⟨⟨n, j⟩, listed, same⟩
    obtain ⟨rfl, rfl⟩ := Prod.mk.inj same
    have found := List.mem_zipIdx_iff_getElem?.mp listed
    obtain ⟨inside, here⟩ := List.getElem?_eq_some_iff.mp found
    exact ⟨inside, by rw [idAt_eq inside, here]⟩
  · rintro ⟨inside, rfl⟩
    refine ⟨(symbols[i], i), ?_, by rw [idAt_eq inside]⟩
    exact List.mem_zipIdx_iff_getElem?.mpr (List.getElem?_eq_getElem inside)

end

/-! ### Pairs -/

/-- The pairs of different symbols that a call or an inheritance of enough certainty joins. -/
def joinedPairs (symbols : List Node) (edges : List Edge) : Set (Sym2 String) :=
  {p | ¬ p.IsDiag ∧ (∀ id ∈ p, id ∈ symbols.map Node.id) ∧
    ∃ e ∈ edges, (e.kind = .calls ∨ e.kind = .extends ∨ e.kind = .implements) ∧
      0.5 ≤ e.confidence ∧ s(e.source, e.target) = p}

/-- The symbols at a pair of positions. -/
def symbolsAt (symbols : List Node) (p : Pair) : Sym2 String :=
  s(idAt symbols p.first, idAt symbols p.second)

section

variable {symbols : List Node} {edges : List Edge} {p q : Pair}

/-- An edge with a certainty joins its ends if it has a joining kind and is certain enough. -/
theorem joins_iff {e : Edge} (inside : Double.InUnit e.confidence) :
    joins e = true ↔ (e.kind = .calls ∨ e.kind = .extends ∨ e.kind = .implements) ∧
      0.5 ≤ e.confidence := by
  obtain ⟨q, found, -⟩ := inside.denotes
  have order : ¬ e.confidence < leastCertainty ↔ 0.5 ≤ e.confidence :=
    Double.not_lt_iff found.number half_denotes.number
  rw [← order]
  simp [joins]

theorem symbolsAt_inj (distinct : (symbols.map Node.id).Nodup) (orderP : p.first < p.second)
    (insideP : p.second < symbols.length) (orderQ : q.first < q.second)
    (insideQ : q.second < symbols.length) (same : symbolsAt symbols p = symbolsAt symbols q) :
    p = q := by
  have firstP := orderP.trans insideP
  have firstQ := orderQ.trans insideQ
  obtain ⟨a, b⟩ := p
  obtain ⟨c, d⟩ := q
  rcases Sym2.eq_iff.mp same with ⟨h, h'⟩ | ⟨h, h'⟩
  · obtain rfl := (idAt_inj distinct firstP firstQ).mp h
    obtain rfl := (idAt_inj distinct insideP insideQ).mp h'
    rfl
  · obtain rfl := (idAt_inj distinct firstP insideQ).mp h
    obtain rfl := (idAt_inj distinct insideP firstQ).mp h'
    exact absurd orderP (Nat.lt_asymm orderQ)

theorem pair?_iff (distinct : (symbols.map Node.id).Nodup) {e : Edge} :
    pair? ((positions symbols)[·]?) e = some p ↔ joins e = true ∧ p.first < p.second ∧
      p.second < symbols.length ∧ symbolsAt symbols p = s(e.source, e.target) := by
  constructor
  · intro found
    refine ⟨joins_of_pair found, ?_⟩
    rw [pair?, if_pos (joins_of_pair found)] at found
    split at found
    · next a b source target =>
      obtain ⟨insideA, atA⟩ := (getElem?_positions distinct).mp source
      obtain ⟨insideB, atB⟩ := (getElem?_positions distinct).mp target
      split_ifs at found with same
      obtain rfl := Option.some.inj found
      rw [symbolsAt, Pair.of, ← atA, ← atB]
      rcases Nat.lt_or_gt_of_ne same with less | greater
      · rw [min_eq_left less.le, max_eq_right less.le]
        exact ⟨less, insideB, rfl⟩
      · rw [min_eq_right greater.le, max_eq_left greater.le]
        exact ⟨greater, insideA, Sym2.eq_swap⟩
    · cases found
  · rintro ⟨joined, order, inside, same⟩
    have first := order.trans inside
    rw [pair?, if_pos joined]
    rcases Sym2.eq_iff.mp same with ⟨source, target⟩ | ⟨source, target⟩
    · rw [(getElem?_positions distinct).mpr ⟨first, source⟩,
        (getElem?_positions distinct).mpr ⟨inside, target⟩]
      simp [Pair.of, order.ne, order.le]
    · rw [(getElem?_positions distinct).mpr ⟨first, source⟩,
        (getElem?_positions distinct).mpr ⟨inside, target⟩]
      simp [Pair.of, order.ne', order.le]

/-- The pairs of positions that have a weight. -/
def weighedPairs (symbols : List Node) (edges : List Edge) : List Pair :=
  (pairWeights ((positions symbols)[·]?) edges).map Prod.fst

theorem weighedPairs_nodup (symbols : List Node) (edges : List Edge) :
    (weighedPairs symbols edges).Nodup :=
  (pairWeights_sorted _ edges).nodup

theorem mem_weighedPairs (distinct : (symbols.map Node.id).Nodup)
    (inUnit : ∀ e ∈ edges, Double.InUnit e.confidence) :
    p ∈ weighedPairs symbols edges ↔ p.first < p.second ∧ p.second < symbols.length ∧
      symbolsAt symbols p ∈ joinedPairs symbols edges := by
  rw [weighedPairs, mem_pairWeights]
  constructor
  · rintro ⟨e, member, found⟩
    obtain ⟨joined, order, inside, same⟩ := (pair?_iff distinct).mp found
    obtain ⟨kind, certain⟩ := (joins_iff (inUnit e member)).mp joined
    have first := order.trans inside
    refine ⟨order, inside, ?_, ?_, e, member, kind, certain, same.symm⟩
    · rw [symbolsAt, Sym2.mk_isDiag_iff, idAt_inj distinct first inside]
      exact order.ne
    · intro id listed
      rcases Sym2.mem_iff.mp listed with rfl | rfl
      · exact idAt_mem first
      · exact idAt_mem inside
  · rintro ⟨order, inside, -, -, e, member, kind, certain, same⟩
    have joined := (joins_iff (inUnit e member)).mpr ⟨kind, certain⟩
    exact ⟨e, member, (pair?_iff distinct).mpr ⟨joined, order, inside, same.symm⟩⟩

/-- Every joined pair of symbols is at a pair of positions. -/
theorem exists_weighedPair (distinct : (symbols.map Node.id).Nodup)
    (inUnit : ∀ e ∈ edges, Double.InUnit e.confidence) {s : Sym2 String}
    (joined : s ∈ joinedPairs symbols edges) :
    ∃ p ∈ weighedPairs symbols edges, symbolsAt symbols p = s := by
  have different := joined.1
  have known := joined.2.1
  induction s with | h a b =>
  obtain ⟨m, inM, rfl⟩ := List.mem_map.mp (known a (Sym2.mem_mk_left a b))
  obtain ⟨n, inN, rfl⟩ := List.mem_map.mp (known b (Sym2.mem_mk_right m.id b))
  obtain ⟨i, hi, rfl⟩ := List.mem_iff_getElem.mp inM
  obtain ⟨j, hj, rfl⟩ := List.mem_iff_getElem.mp inN
  rw [← idAt_eq hi, ← idAt_eq hj] at different joined ⊢
  have apart : i ≠ j := by
    rintro rfl
    exact different (Sym2.mk_isDiag_iff.mpr rfl)
  rcases Nat.lt_or_gt_of_ne apart with less | greater
  · exact ⟨⟨i, j⟩, (mem_weighedPairs distinct inUnit).mpr ⟨less, hj, joined⟩, rfl⟩
  · have swapped : symbolsAt symbols ⟨j, i⟩ = s(idAt symbols i, idAt symbols j) := Sym2.eq_swap
    exact ⟨⟨j, i⟩, (mem_weighedPairs distinct inUnit).mpr ⟨greater, hi, swapped ▸ joined⟩, swapped⟩

end

end CodeAtlas.Communities
