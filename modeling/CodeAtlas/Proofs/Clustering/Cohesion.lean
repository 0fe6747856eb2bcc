import CodeAtlas.Proofs.Clustering.Pairs

/-!
# Cohesion

The cohesion of a community is the share of the joined pairs of symbols among all pairs of its
members. It lies between zero and one without being brought there.
-/

namespace CodeAtlas.Communities

open Clustering

/-- The joined pairs of symbols that are both among some ids. -/
def joinedWithin (symbols : List Node) (edges : List Edge) (ids : List String) :
    Set (Sym2 String) :=
  {s | s ∈ joinedPairs symbols edges ∧ ∀ id ∈ s, id ∈ ids}

/-- The share of `k` pairs among those of `m` members. -/
def share (k m : Nat) : Float :=
  if m < 2 then 1.0 else Float.ofNat k / Float.ofNat (m * (m - 1) / 2)

section

variable {symbols : List Node} {edges : List Edge} {group : List Nat}

theorem idAt_mem_map (distinct : (symbols.map Node.id).Nodup)
    (inside : ∀ i ∈ group, i < symbols.length) {i : Nat} (known : i < symbols.length) :
    idAt symbols i ∈ group.map (idAt symbols) ↔ i ∈ group := by
  constructor
  · intro listed
    obtain ⟨j, member, same⟩ := List.mem_map.mp listed
    rwa [(idAt_inj distinct (inside j member) known).mp same] at member
  · exact List.mem_map_of_mem

theorem joinedWithin_eq (distinct : (symbols.map Node.id).Nodup)
    (inUnit : ∀ e ∈ edges, Double.InUnit e.confidence)
    (inside : ∀ i ∈ group, i < symbols.length) :
    joinedWithin symbols edges (group.map (idAt symbols)) = symbolsAt symbols ''
      {p | p ∈ (weighedPairs symbols edges).filter fun p =>
        group.contains p.first && group.contains p.second} := by
  ext s
  simp only [Set.mem_image, Set.mem_ofPred_eq, List.mem_filter, Bool.and_eq_true,
    List.contains_iff_mem]
  constructor
  · rintro ⟨joined, both⟩
    obtain ⟨p, member, rfl⟩ := exists_weighedPair distinct inUnit joined
    obtain ⟨order, known, -⟩ := (mem_weighedPairs distinct inUnit).mp member
    have first := both _ (Sym2.mem_mk_left _ _)
    have second := both _ (Sym2.mem_mk_right _ _)
    rw [idAt_mem_map distinct inside (order.trans known)] at first
    rw [idAt_mem_map distinct inside known] at second
    exact ⟨p, ⟨member, first, second⟩, rfl⟩
  · rintro ⟨p, ⟨member, first, second⟩, rfl⟩
    obtain ⟨order, known, joined⟩ := (mem_weighedPairs distinct inUnit).mp member
    refine ⟨joined, ?_⟩
    intro id listed
    rcases Sym2.mem_iff.mp listed with rfl | rfl
    · exact List.mem_map_of_mem first
    · exact List.mem_map_of_mem second

/-- The pairs of positions in a group are as many as the joined pairs of its symbols. -/
theorem ncard_joinedWithin (distinct : (symbols.map Node.id).Nodup)
    (inUnit : ∀ e ∈ edges, Double.InUnit e.confidence)
    (inside : ∀ i ∈ group, i < symbols.length) :
    (joinedWithin symbols edges (group.map (idAt symbols))).ncard =
      (weighedPairs symbols edges).countP fun p =>
        group.contains p.first && group.contains p.second := by
  rw [joinedWithin_eq distinct inUnit inside, Set.InjOn.ncard_image]
  · rw [show {p | p ∈ (weighedPairs symbols edges).filter fun p =>
        group.contains p.first && group.contains p.second} =
        ↑((weighedPairs symbols edges).filter fun p =>
          group.contains p.first && group.contains p.second).toFinset by ext; simp,
      Set.ncard_coe_finset,
      List.toFinset_card_of_nodup ((weighedPairs_nodup symbols edges).filter _),
      List.countP_eq_length_filter]
  · intro p hp q hq same
    obtain ⟨orderP, insideP, -⟩ := (mem_weighedPairs distinct inUnit).mp (List.mem_filter.mp hp).1
    obtain ⟨orderQ, insideQ, -⟩ := (mem_weighedPairs distinct inUnit).mp (List.mem_filter.mp hq).1
    exact symbolsAt_inj distinct orderP insideP orderQ insideQ same

theorem ncard_joinedWithin_le {ids : List String} (distinct : ids.Nodup) :
    (joinedWithin symbols edges ids).ncard ≤ ids.length * (ids.length - 1) / 2 := by
  have within : joinedWithin symbols edges ids ⊆
      ↑(ids.toFinset.offDiag.image Sym2.mk.uncurry) := by
    rintro s ⟨⟨different, -⟩, both⟩
    induction s with | h a b =>
    rw [Finset.mem_coe, Finset.mem_image]
    refine ⟨(a, b), ?_, rfl⟩
    rw [Finset.mem_offDiag]
    exact ⟨List.mem_toFinset.mpr (both a (Sym2.mem_mk_left a b)),
      List.mem_toFinset.mpr (both b (Sym2.mem_mk_right a b)), different⟩
  have bound := Set.ncard_le_ncard within (Finset.finite_toSet _)
  rwa [Set.ncard_coe_finset, Sym2.card_image_offDiag, List.toFinset_card_of_nodup distinct,
    Nat.choose_two_right] at bound

/-- The share of some of the pairs lies between zero and one, for as many members as a list can
have. -/
theorem share_inUnit {k m : Nat} (part : k ≤ m * (m - 1) / 2) (small : m < 2 ^ 64) :
    Double.InUnit (share k m) := by
  unfold share
  split_ifs with alone
  · exact Double.one_denotes.inUnit le_rfl
  · have two : 2 ≤ m := Nat.le_of_not_lt alone
    have pairs : 2 ≤ m * (m - 1) := two.trans (Nat.le_mul_of_pos_right m (by omega))
    have bound : m * (m - 1) ≤ 2 ^ 64 * 2 ^ 64 :=
      Nat.mul_le_mul small.le (by omega)
    -- Both numbers are rounded, but neither can be infinite.
    have few : m * (m - 1) / 2 ≤ 2 ^ 128 := by
      calc m * (m - 1) / 2 ≤ m * (m - 1) := Nat.div_le_self _ _
        _ ≤ 2 ^ 64 * 2 ^ 64 := bound
        _ = 2 ^ 128 := by norm_num
    exact Double.ratio_inUnit part (Nat.div_pos pairs (by norm_num)) few (by norm_num)

/-- The cohesion of a group is the share of its joined pairs. -/
theorem cohesion_eq (distinct : (symbols.map Node.id).Nodup)
    (inUnit : ∀ e ∈ edges, Double.InUnit e.confidence)
    (inside : ∀ i ∈ group, i < symbols.length) (once : group.Nodup)
    (small : group.length < 2 ^ 64) :
    cohesion group (weighedPairs symbols edges) =
        share (joinedWithin symbols edges (group.map (idAt symbols))).ncard group.length ∧
      Double.InUnit (cohesion group (weighedPairs symbols edges)) := by
  have ids : (group.map (idAt symbols)).Nodup :=
    once.map_on fun i hi j hj same => (idAt_inj distinct (inside i hi) (inside j hj)).mp same
  have part := @ncard_joinedWithin_le symbols edges _ ids
  rw [List.length_map] at part
  have unit := share_inUnit part small
  have same : cohesion group (weighedPairs symbols edges) =
      share (joinedWithin symbols edges (group.map (idAt symbols))).ncard group.length := by
    rw [ncard_joinedWithin distinct inUnit inside] at unit ⊢
    by_cases few : group.length < 2
    · simp only [cohesion, share, if_pos few]
    · simp only [share, if_neg few] at unit
      simp only [cohesion, share, if_neg few]
      exact Double.clampUnit_eq unit
  rw [same]
  exact ⟨rfl, unit⟩

end

end CodeAtlas.Communities
