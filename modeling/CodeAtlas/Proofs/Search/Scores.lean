import CodeAtlas.Proofs.Scalar.Exact
import CodeAtlas.Proofs.Search.Selection
import Mathlib.Algebra.Order.BigOperators.Group.List
import Mathlib.Tactic.Positivity

/-!
# Scores in exact arithmetic

Both scores of a document are sums over the terms of the query. By terms, whatever the document has adds
something to its score. By overlap, a term counts one if the document has it, less than one if it only
overlaps with one that the document has, and else nothing.
-/

namespace CodeAtlas.Search

/-! ### Terms of a document -/

namespace Document

/-- The document has a term. -/
def Has (d : Document) (term : String) : Prop :=
  term ∈ d.tokens

instance (d : Document) (term : String) : Decidable (d.Has term) :=
  inferInstanceAs (Decidable (_ ∈ _))

/-- The document has a term, or one that is part of it, or one that it is part of. -/
def Touches (d : Document) (term : String) : Prop :=
  ∃ own ∈ d.tokens, term.toList <:+: own.toList ∨ own.toList <:+: term.toList

theorem Has.touches {d : Document} {term : String} (has : d.Has term) : d.Touches term :=
  ⟨term, has, .inl List.infix_rfl⟩

end Document

namespace Engine

section

variable {d d' : Document} {term query : String} {terms : List String}

theorem mem_queryTerms : term ∈ queryTerms query ↔ term ∈ termsOf query :=
  List.mem_eraseDups

theorem occursIn_iff {piece cs : List Char} : occursIn piece cs = true ↔ piece <:+: cs := by
  induction cs with
  | nil => rw [occursIn, List.isEmpty_iff, List.infix_nil]
  | cons c rest ih =>
    have starts : (Text.afterStart? piece (c :: rest)).isSome = true ↔ piece <+: c :: rest := by
      rw [Option.isSome_iff_exists]
      exact exists_congr fun after => Text.afterStart?_eq_some_iff.trans eq_comm
    rw [occursIn, Bool.or_eq_true, starts, ih, List.infix_cons_iff]

theorem contains_terms_iff : d.terms.contains term = true ↔ d.Has term := by
  rw [List.contains_iff_mem]
  exact List.mem_eraseDups

theorem any_overlap_iff : d.terms.any (overlap term) = true ↔ d.Touches term := by
  rw [List.any_eq_true]
  refine exists_congr fun own => and_congr List.mem_eraseDups ?_
  rw [overlap, Bool.or_eq_true, occursIn_iff, occursIn_iff]

/-! ### Scores by overlap -/

theorem overlapWeight_pos : (0 : ℝ) < overlapWeight := by
  show (0 : ℝ) < ((3 : Nat) : ℝ) / 10 ^ 1
  norm_num

theorem overlapWeight_lt_one : (overlapWeight : ℝ) < 1 := by
  show ((3 : Nat) : ℝ) / 10 ^ 1 < 1
  norm_num

/-- What a term counts for a document. -/
noncomputable def weight (d : Document) (term : String) : ℝ :=
  if d.terms.contains term then 1 else if d.terms.any (overlap term) then overlapWeight else 0

theorem weight_nonneg (d : Document) (term : String) : 0 ≤ weight d term := by
  unfold weight
  split_ifs
  exacts [zero_le_one, overlapWeight_pos.le, le_rfl]

theorem weight_le_one (d : Document) (term : String) : weight d term ≤ 1 := by
  unfold weight
  split_ifs
  exacts [le_rfl, overlapWeight_lt_one.le, zero_le_one]

theorem weight_of_has (has : d.Has term) : weight d term = 1 :=
  if_pos (contains_terms_iff.mpr has)

theorem weight_lt_one (lacks : ¬ d.Has term) : weight d term < 1 := by
  rw [weight, if_neg (contains_terms_iff.not.mpr lacks)]
  split_ifs
  exacts [overlapWeight_lt_one, zero_lt_one]

theorem weight_pos (touches : d.Touches term) : 0 < weight d term := by
  rw [weight, if_pos (any_overlap_iff.mpr touches)]
  split_ifs
  exacts [zero_lt_one, overlapWeight_pos]

theorem weight_of_not_touches (apart : ¬ d.Touches term) : weight d term = 0 := by
  have lacks : ¬ d.Has term := fun has => apart has.touches
  rw [weight, if_neg (contains_terms_iff.not.mpr lacks), if_neg (any_overlap_iff.not.mpr apart)]

/-- The counts are the sum of what the terms count for. -/
theorem matchCounts_sum (terms : List String) (d : Document) :
    ((matchCounts terms d).1 + overlapWeight * (matchCounts terms d).2 : ℝ) =
      (terms.map (weight d)).sum := by
  unfold matchCounts weight
  dsimp only
  induction terms with
  | nil => simp
  | cons term rest ih =>
    rw [List.map_cons, List.sum_cons, ← ih, List.countP_cons, List.countP_cons]
    cases d.terms.contains term <;> cases d.terms.any (overlap term) <;> simp <;> ring

theorem overlapScore_real (terms : List String) (d : Document) :
    (overlapScore terms d : ℝ) = (terms.map (weight d)).sum / terms.length := by
  rw [← matchCounts_sum]
  rfl

theorem length_pos (nonempty : terms ≠ []) : (0 : ℝ) < terms.length :=
  Nat.cast_pos.mpr (List.length_pos_iff.mpr nonempty)

theorem overlapScore_pos_iff : (0 : ℝ) < overlapScore terms d ↔ ∃ term ∈ terms, d.Touches term := by
  rw [overlapScore_real]
  constructor
  · intro positive
    by_contra apart
    have nothing : terms.map (weight d) = terms.map fun _ => 0 :=
      List.map_congr_left fun term listed =>
        weight_of_not_touches fun touches => apart ⟨term, listed, touches⟩
    rw [nothing] at positive
    simp at positive
  · rintro ⟨term, listed, touches⟩
    have sum := List.sum_lt_sum (fun _ => 0) (weight d) (fun other _ => weight_nonneg d other)
      ⟨term, listed, weight_pos touches⟩
    rw [List.map_const', List.sum_replicate, nsmul_zero] at sum
    exact div_pos sum (length_pos (List.ne_nil_of_mem listed))

theorem sum_one (terms : List String) : (terms.map fun _ => (1 : ℝ)).sum = terms.length := by
  rw [List.map_const', List.sum_replicate, nsmul_one]

theorem overlapScore_le_one (terms : List String) (d : Document) :
    (overlapScore terms d : ℝ) ≤ 1 := by
  have sum := List.sum_le_sum (f := weight d) fun term (_ : term ∈ terms) => weight_le_one d term
  rw [sum_one] at sum
  rw [overlapScore_real]
  exact div_le_one_of_le₀ sum (Nat.cast_nonneg _)

theorem overlapScore_eq_one_iff (nonempty : terms ≠ []) :
    (overlapScore terms d : ℝ) = 1 ↔ ∀ term ∈ terms, d.Has term := by
  rw [overlapScore_real, div_eq_one_iff_eq (length_pos nonempty).ne']
  constructor
  · intro full term listed
    by_contra lacks
    have sum := List.sum_lt_sum (weight d) (fun _ => 1) (fun other _ => weight_le_one d other)
      ⟨term, listed, weight_lt_one lacks⟩
    rw [sum_one] at sum
    exact sum.ne full
  · intro all
    rw [← sum_one]
    exact congrArg List.sum (List.map_congr_left fun term listed => weight_of_has (all term listed))

/-- A document that has every term which another one touches scores at least as high. -/
theorem overlapScore_le (covers : ∀ term ∈ terms, d'.Touches term → d.Has term) :
    (overlapScore terms d' : ℝ) ≤ overlapScore terms d := by
  rw [overlapScore_real, overlapScore_real]
  refine div_le_div_of_nonneg_right (List.sum_le_sum fun term listed => ?_) (Nat.cast_nonneg _)
  by_cases touches : d'.Touches term
  · rw [weight_of_has (covers term listed touches)]
    exact weight_le_one d' term
  · rw [weight_of_not_touches touches]
    exact weight_nonneg d term

end

/-! ### Scores by terms -/

section

variable {e : Engine} {c : Constants ℝ} {d : Document} {query term : String} {n df length tf : Nat}
  {average : ℝ}

/-- Every term is rare: even one that all documents have counts for something. -/
theorem rarity_pos (part : df ≤ n) : (0 : ℝ) < rarity n df := by
  have half : (Scalar.ofDecimal 5 1 : ℝ) = 1 / 2 := by
    show ((5 : Nat) : ℝ) / 10 ^ 1 = _
    norm_num
  have order : (df : ℝ) ≤ n := Nat.cast_le.mpr part
  have without : 0 < (n : ℝ) - df + 1 / 2 := by linarith
  show 0 < Real.log (((1 : Nat) : ℝ) + ((n : ℝ) - df + Scalar.ofDecimal 5 1) /
    ((df : ℝ) + Scalar.ofDecimal 5 1))
  rw [half, Nat.cast_one]
  apply Real.log_pos
  have share : 0 < ((n : ℝ) - df + 1 / 2) / (df + 1 / 2) := by positivity
  linarith

theorem averageLength_nonneg (e : Engine) : (0 : ℝ) ≤ e.averageLength := by
  unfold averageLength
  split_ifs
  · exact Scalar.zero_real.ge
  · exact div_nonneg (Nat.cast_nonneg _) (Nat.cast_nonneg _)

/-- The constants that weigh frequencies and lengths. -/
structure Sensible (c : Constants ℝ) : Prop where
  k1_nonneg : 0 ≤ c.k1
  b_nonneg : 0 ≤ c.b
  b_le_one : c.b ≤ 1

theorem termScore_pos (sensible : Sensible c) {rarity : ℝ} (rare : 0 < rarity) (nonneg : 0 ≤ average)
    (length : Nat) (occurs : 0 < tf) : 0 < termScore c average rarity length tf := by
  obtain ⟨k1, b, small⟩ := sensible
  have ratio : 0 ≤ if Scalar.less Scalar.zero average then Scalar.ofNat length / average
      else Scalar.one := by
    split_ifs
    · exact div_nonneg (Nat.cast_nonneg _) nonneg
    · exact Scalar.one_real.ge.trans' zero_le_one
  have frequency : (0 : ℝ) < tf := Nat.cast_pos.mpr occurs
  have rest : 0 ≤ 1 - c.b := sub_nonneg.mpr small
  unfold termScore
  dsimp only
  generalize (if Scalar.less Scalar.zero average then Scalar.ofNat length / average
    else Scalar.one) = share at ratio ⊢
  rw [Scalar.one_real, Scalar.ofNat_real]
  positivity

/-- The terms of a query that a document has, with their rarity. -/
noncomputable def presentTerms (e : Engine) (query : String) (d : Document) : List (String × ℝ) :=
  (e.weighedTerms query).filter fun x => d.tokens.contains x.1

theorem mem_presentTerms {x : String × ℝ} : x ∈ e.presentTerms query d ↔
    (x.1 ∈ termsOf query ∧ d.Has x.1) ∧ x.2 = rarity e.size (e.documentFrequency x.1) := by
  obtain ⟨term, weighing⟩ := x
  rw [presentTerms, List.mem_filter, List.contains_iff_mem, weighedTerms, List.mem_map]
  constructor
  · rintro ⟨⟨own, listed, same⟩, has⟩
    obtain ⟨rfl, rfl⟩ := Prod.mk.inj same
    exact ⟨⟨mem_queryTerms.mp listed, has⟩, rfl⟩
  · rintro ⟨⟨listed, has⟩, weighed⟩
    exact ⟨⟨term, mem_queryTerms.mpr listed, Prod.ext rfl weighed.symm⟩, has⟩

theorem bm25Score?_eq (c : Constants ℝ) (average : ℝ) (e : Engine) (query : String) (d : Document) :
    bm25Score? c average (e.weighedTerms query) d =
      if (e.presentTerms query d).isEmpty then none
      else some ((e.presentTerms query d).map fun x =>
        termScore c average x.2 d.length (d.frequency x.1)).sum := by
  rw [← Scalar.sum_real]
  rfl

/-- A document has a score by terms if it has a term of the query. -/
theorem exists_bm25Score?_iff (c : Constants ℝ) (average : ℝ) (e : Engine) (query : String)
    (d : Document) : (∃ score, bm25Score? c average (e.weighedTerms query) d = some score) ↔
      ∃ term ∈ termsOf query, d.Has term := by
  rw [bm25Score?_eq, ← Option.isSome_iff_exists]
  constructor
  · intro scored
    cases present : e.presentTerms query d with
    | nil =>
      rw [present, List.isEmpty_nil, if_pos rfl] at scored
      cases scored
    | cons x rest =>
      have listed := mem_presentTerms.mp (present ▸ List.mem_cons_self)
      exact ⟨x.1, listed.1⟩
  · rintro ⟨term, listed, has⟩
    have member : (term, rarity e.size (e.documentFrequency term)) ∈ e.presentTerms query d :=
      mem_presentTerms.mpr ⟨⟨listed, has⟩, rfl⟩
    rw [if_neg (by rw [List.isEmpty_iff]; exact List.ne_nil_of_mem member)]
    rfl

theorem bm25Score?_pos (sensible : Sensible c) (nonneg : 0 ≤ average) {score : ℝ}
    (scored : bm25Score? c average (e.weighedTerms query) d = some score) : 0 < score := by
  rw [bm25Score?_eq] at scored
  split at scored
  · cases scored
  · next nonempty =>
    obtain rfl := Option.some.inj scored
    rw [List.isEmpty_iff] at nonempty
    refine List.sum_pos _ ?_ (List.map_eq_nil_iff.not.mpr nonempty)
    intro part member
    obtain ⟨x, present, rfl⟩ := List.mem_map.mp member
    obtain ⟨⟨-, has⟩, weighed⟩ := mem_presentTerms.mp present
    have rare : 0 < x.2 := weighed ▸ rarity_pos List.countP_le_length
    exact termScore_pos sensible rare nonneg d.length (List.count_pos_iff.mpr has)

end

end Engine

end CodeAtlas.Search
