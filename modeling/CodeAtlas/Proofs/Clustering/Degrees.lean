import CodeAtlas.Proofs.Clustering.Levels

/-!
# Clustering succeeds

Where some pair is joined, the sum of all degrees is positive and finite, however many edges there
are, so that there is a clustering.
-/

namespace CodeAtlas.Clustering

open Double

/-! ### Degrees -/

/-- Every degree is small. -/
def Small (degree : Array Float) : Prop :=
  ∀ (i : Nat) x, degree[i]? = some x → UpTo 106 x

/-- Some degree is at least one half. -/
def Half (degree : Array Float) : Prop :=
  ∃ (i : Nat), ∃ x q, degree[i]? = some x ∧ Denotes x q ∧ 1 / 2 ≤ q

section

variable {degree : Array Float} {w : Float}

theorem Small.add_weight {x : Float} (small : UpTo 106 x) (weighty : Weighty w) :
    ∃ p q r, Denotes x p ∧ Denotes w q ∧ Denotes (x + w) r ∧ r ≤ 2 ^ (106 : ℤ) ∧ p ≤ r ∧ q ≤ r ∧
      1 / 2 ≤ q := by
  obtain ⟨p, hx, hp⟩ := small
  obtain ⟨q, hw, least, most⟩ := weighty
  obtain ⟨r, sum, bound, pLe, qLe⟩ := hx.add_small (by norm_num) (by norm_num) hp hw
    (by simpa using most)
  exact ⟨p, q, r, hx, hw, sum, bound, pLe, qLe, least⟩

theorem Small.modify (small : Small degree) (weighty : Weighty w) (i : Nat) :
    Small (degree.modify i (· + w)) := by
  intro j x found
  rw [Array.getElem?_modify] at found
  split at found
  · obtain ⟨y, known, rfl⟩ := Option.map_eq_some_iff.mp found
    obtain ⟨-, -, r, -, -, sum, bound, -⟩ := Small.add_weight (small j y known) weighty
    exact ⟨r, sum, bound⟩
  · exact small j x found

/-- Adding a weight keeps a degree that is at least one half. -/
theorem Half.modify (half : Half degree) (small : Small degree) (weighty : Weighty w) (i : Nat) :
    Half (degree.modify i (· + w)) := by
  obtain ⟨j, x, p, known, hx, least⟩ := half
  by_cases same : i = j
  · obtain ⟨p', -, r, hx', -, sum, -, pLe, -⟩ := Small.add_weight (small j x known) weighty
    refine ⟨j, x + w, r, ?_, sum, ?_⟩
    · rw [Array.getElem?_modify, if_pos same, known]
      rfl
    · rw [hx.unique hx'] at least
      exact least.trans pLe
  · refine ⟨j, x, p, ?_, hx, least⟩
    rw [Array.getElem?_modify, if_neg same]
    exact known

/-- A degree to which a weight is added is at least one half. -/
theorem half_modify (small : Small degree) (weighty : Weighty w) {i : Nat}
    (inside : i < degree.size) : Half (degree.modify i (· + w)) := by
  have known : degree[i]? = some degree[i] := Array.getElem?_eq_getElem inside
  obtain ⟨-, q, r, -, -, sum, -, -, qLe, least⟩ := Small.add_weight (small i _ known) weighty
  refine ⟨i, degree[i] + w, r, ?_, sum, least.trans qLe⟩
  rw [Array.getElem?_modify, if_pos rfl, known]
  rfl

end

section

variable {n : Nat} {edges : List (WeightedEdge Float)}

/-- Adding the edges to the degrees keeps them small, and some degree gets at least one half. -/
theorem foldl_addDegree {degree : Array Float} (small : Small degree)
    (weighty : ∀ e ∈ edges, e.a < degree.size ∧ Weighty e.weight) :
    Small (edges.foldl WeightedGraph.addDegree degree) ∧
      (edges ≠ [] ∨ Half degree → Half (edges.foldl WeightedGraph.addDegree degree)) := by
  induction edges generalizing degree with
  | nil => exact ⟨small, by simp⟩
  | cons e rest ih =>
    obtain ⟨⟨inside, here⟩, others⟩ := List.forall_mem_cons.mp weighty
    have first := small.modify here e.a
    have both := first.modify here e.b
    -- One edge makes some degree at least one half; the others only have to keep that.
    have half : Half (WeightedGraph.addDegree degree e) :=
      (half_modify small here inside).modify first here e.b
    have size : (WeightedGraph.addDegree degree e).size = degree.size := by
      rw [WeightedGraph.addDegree, Array.size_modify, Array.size_modify]
    have later : ∀ e' ∈ rest, e'.a < (WeightedGraph.addDegree degree e).size ∧
        Weighty e'.weight := by rwa [size]
    obtain ⟨smallAll, halfAll⟩ := ih both later
    exact ⟨smallAll, fun _ => halfAll (.inr half)⟩

theorem two_mul_zero_denotes : Denotes (Scalar.ofNat 2 * Scalar.zero : Float) 0 := by
  have bits : (Scalar.ofNat 2 * Scalar.zero : Float).toModel.unpack = .zero .positive := by rfl
  rw [Denotes, bits]
  exact .zero _

/-- The sum of all degrees is positive and finite if there are edges. -/
theorem total_denotes (nonempty : edges ≠ [])
    (weighty : ∀ e ∈ edges, e.a < n ∧ Weighty e.weight) :
    ∃ q, Denotes (WeightedGraph.make edges (Array.replicate n Scalar.zero)).total q ∧ 0 < q := by
  have small : Small ((Array.replicate n (Scalar.zero : Float)).map (Scalar.ofNat 2 * ·)) := by
    intro i x found
    rw [Array.map_replicate] at found
    have zero : x = Scalar.ofNat 2 * Scalar.zero := by
      rw [Array.getElem?_replicate] at found
      split at found
      · exact (Option.some.inj found).symm
      · cases found
    rw [zero]
    exact ⟨0, two_mul_zero_denotes, (two_zpow_pos _).le⟩
  have weighty' : ∀ e ∈ edges,
      e.a < ((Array.replicate n (Scalar.zero : Float)).map (Scalar.ofNat 2 * ·)).size ∧
        Weighty e.weight := by
    simpa using weighty
  obtain ⟨smallAll, halfAll⟩ := foldl_addDegree small weighty'
  obtain ⟨i, x, q, known, hx, least⟩ := halfAll (.inl nonempty)
  have each : ∀ y ∈ (edges.foldl WeightedGraph.addDegree
      ((Array.replicate n (Scalar.zero : Float)).map (Scalar.ofNat 2 * ·))).toList,
      UpTo ((159 : ℤ) - 53) y := by
    intro y member
    obtain ⟨j, found⟩ := List.mem_iff_getElem?.mp member
    rw [Array.getElem?_toList] at found
    exact smallAll j y found
  obtain ⟨r, sum, -, -, parts⟩ := foldl_add_denotes (e := 159) (by norm_num) (by norm_num) each
    scalar_zero_denotes (two_zpow_pos _).le
  have member : x ∈ (edges.foldl WeightedGraph.addDegree
      ((Array.replicate n (Scalar.zero : Float)).map (Scalar.ofNat 2 * ·))).toList := by
    rw [List.mem_iff_getElem?]
    exact ⟨i, by rw [Array.getElem?_toList, known]⟩
  refine ⟨r, sum, ?_⟩
  have := parts x member q hx
  linarith

theorem Weighty.isSound {e : WeightedEdge Float} (inside : e.a < n ∧ e.b < n)
    (weighty : Weighty e.weight) : e.isSound n = true := by
  obtain ⟨q, known, -⟩ := weighty
  have notLess : ¬ e.weight < Scalar.zero := by
    rw [known.lt_iff scalar_zero_denotes, not_lt]
    exact known.nonneg
  have finite : Scalar.isFinite e.weight = true := known.isFinite
  have order : Scalar.less e.weight Scalar.zero = false := decide_eq_false notLess
  simp [WeightedEdge.isSound, inside, finite, order]

/-- Sound edges, if there are any, are clustered. -/
theorem exists_cluster (nonempty : edges ≠ [])
    (weighty : ∀ e ∈ edges, (e.a < n ∧ e.b < n) ∧ Weighty e.weight) (resolution : Float) :
    ∃ assignment, cluster? n edges resolution = some assignment ∧ assignment.size = n ∧
      ∀ c ∈ assignment, c < n := by
  have sound : edges.all (WeightedEdge.isSound n) = true := by
    rw [List.all_eq_true]
    intro e member
    obtain ⟨inside, heavy⟩ := weighty e member
    exact heavy.isSound inside
  obtain ⟨q, total, positive⟩ := total_denotes (n := n) nonempty fun e member =>
    ⟨(weighty e member).1.1, (weighty e member).2⟩
  have finite : Scalar.isFinite (WeightedGraph.make edges
      (Array.replicate n (Scalar.zero : Float))).total = true := total.isFinite
  have order : Scalar.less Scalar.zero (WeightedGraph.make edges
      (Array.replicate n (Scalar.zero : Float))).total = true :=
    decide_eq_true ((scalar_zero_denotes.lt_iff total).mpr positive)
  have found : cluster? n edges resolution = some (levels resolution mostLevels
      (WeightedGraph.make edges (Array.replicate n Scalar.zero)) (Array.range n)) := by
    simp only [cluster?, sound, finite, order, Bool.not_true, Bool.false_eq_true, if_false,
      Bool.and_self, if_true]
  exact ⟨_, found, cluster?_lt found⟩

end

end CodeAtlas.Clustering
