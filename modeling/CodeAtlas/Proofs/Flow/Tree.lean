import CodeAtlas.Proofs.Flow.Trace
import Mathlib.Data.List.Infix
import Mathlib.Data.Set.Card
import Mathlib.Data.Set.Finite.Lattice

/-!
# The tree of paths

The path that is an entry point alone and all that it can be extended to form a tree. The search for
paths cuts this tree: at any time the paths that wait and those that are complete lie on different
branches, and every branch passes through one of them. If the search may look at as many paths as the
tree has, it goes to the end of every branch.
-/

namespace CodeAtlas.FlowTrace

/-! ### The tree -/

/-- A path of at most ten positions goes on by each of the callees that are followed from its end; a
longer one ends. -/
inductive InTree (ix : Adjacency) (entry : Nat) : Path → Prop
  | root : InTree ix entry [entry]
  | child {path : Path} {last target : Nat} (parent : InTree ix entry path)
      (short : path.length ≤ 10) (atEnd : path.getLast? = some last)
      (branch : target ∈ branches ix last path) : InTree ix entry (path ++ [target])

/-- A path of the tree that does not go on. -/
def IsLeaf (ix : Adjacency) (entry : Nat) (path : Path) : Prop :=
  InTree ix entry path ∧ ∀ target, ¬ InTree ix entry (path ++ [target])

section

variable {ix : Adjacency} {entry : Nat} {path longer : Path}

theorem mem_extensions_iff : longer ∈ extensions ix path ↔ path.length ≤ 10 ∧
    ∃ last target, path.getLast? = some last ∧ target ∈ branches ix last path ∧
      longer = path ++ [target] := by
  unfold extensions
  cases atEnd : path.getLast? with
  | none => simp
  | some last =>
    have nonempty : path ≠ [] := by
      rintro rfl
      cases atEnd
    have positive := List.length_pos_iff.mpr nonempty
    by_cases long : mostCalls ≤ path.length - 1
    · have limit : mostCalls = 10 := rfl
      have tooLong : ¬ path.length ≤ 10 := by omega
      simp [long, tooLong]
    · have limit : mostCalls = 10 := rfl
      have short : path.length ≤ 10 := by omega
      simp [long, short, eq_comm]

theorem InTree.ne_nil (inTree : InTree ix entry path) : path ≠ [] := by
  cases inTree with
  | root => exact List.cons_ne_nil _ _
  | child => exact List.append_ne_nil_of_right_ne_nil _ (List.cons_ne_nil _ _)

theorem InTree.length_le (inTree : InTree ix entry path) : path.length ≤ 11 := by
  cases inTree with
  | root => exact Nat.le_add_left 1 10
  | child _ short =>
    rw [List.length_append, List.length_singleton]
    exact Nat.succ_le_succ short

theorem InTree.extend (inTree : InTree ix entry path) (member : longer ∈ extensions ix path) :
    InTree ix entry longer := by
  obtain ⟨short, last, target, atEnd, branch, rfl⟩ := mem_extensions_iff.mp member
  exact .child inTree short atEnd branch

/-- A path of the tree, cut short by one position, can be extended to it. -/
theorem InTree.mem_extensions {target : Nat} (inTree : InTree ix entry (path ++ [target]))
    (nonempty : path ≠ []) : path ++ [target] ∈ extensions ix path := by
  generalize whole : path ++ [target] = longer at inTree
  cases inTree with
  | root =>
    obtain ⟨rfl, -⟩ := List.append_eq_singleton_iff.mp whole |>.resolve_right
      (fun both => by simp at both)
    exact absurd rfl nonempty
  | child parent short atEnd branch =>
    obtain ⟨rfl, -⟩ := List.append_inj' whole rfl
    exact mem_extensions_iff.mpr ⟨short, _, _, atEnd, branch, rfl⟩

/-- The beginnings of a path of the tree are in the tree. -/
theorem InTree.of_prefix {start : Path} (inTree : InTree ix entry path) (begins : start <+: path)
    (nonempty : start ≠ []) : InTree ix entry start := by
  induction inTree with
  | root =>
    have whole : start = [entry] := by
      rcases List.prefix_cons_iff.mp begins with none | ⟨rest, rfl, ends⟩
      · exact absurd none nonempty
      · rw [List.prefix_nil.mp ends]
    rw [whole]
    exact .root
  | child parent short atEnd branch ih =>
    rcases List.prefix_concat_iff.mp begins with rfl | shorter
    · exact .child parent short atEnd branch
    · exact ih shorter

/-- What begins a path of the tree and is not the whole path can be extended towards it. -/
theorem InTree.exists_next {start : Path} (inTree : InTree ix entry path) (begins : start <+: path)
    (nonempty : start ≠ []) (proper : start ≠ path) : ∃ longer ∈ extensions ix start, longer <+: path := by
  obtain ⟨further, rfl⟩ := begins
  cases further with
  | nil => exact absurd (List.append_nil start).symm proper
  | cons target further =>
    have next : start ++ [target] <+: start ++ target :: further :=
      ⟨further, by rw [List.append_assoc, List.singleton_append]⟩
    have between := inTree.of_prefix next (by simp)
    exact ⟨_, between.mem_extensions nonempty, next⟩

/-- A path of the tree goes on exactly if it can be extended. -/
theorem isLeaf_iff : IsLeaf ix entry path ↔ InTree ix entry path ∧ extensions ix path = [] := by
  refine and_congr_right fun inTree => ?_
  rw [List.eq_nil_iff_forall_not_mem]
  constructor
  · intro ends longer member
    obtain ⟨-, -, target, -, -, rfl⟩ := mem_extensions_iff.mp member
    exact ends target (inTree.extend member)
  · intro ends target goesOn
    exact ends _ (goesOn.mem_extensions inTree.ne_nil)

/-- The tree is finite: a path has few extensions, and its length is bounded. -/
theorem inTree_finite (ix : Adjacency) (entry : Nat) : {path | InTree ix entry path}.Finite := by
  have upTo : ∀ n, {path | InTree ix entry path ∧ path.length ≤ n}.Finite := by
    intro n
    induction n with
    | zero =>
      refine Set.finite_empty.subset ?_
      rintro path ⟨inTree, short⟩
      exact inTree.ne_nil (List.length_eq_zero_iff.mp (Nat.le_zero.mp short))
    | succ n ih =>
      have next := Set.Finite.biUnion ih fun path _ => (extensions ix path).finite_toSet
      refine ((Set.finite_singleton [entry]).union next).subset ?_
      rintro path ⟨inTree, short⟩
      cases inTree with
      | root => exact .inl rfl
      | child parent within atEnd branch =>
        rw [List.length_append, List.length_singleton] at short
        refine .inr (Set.mem_biUnion ⟨parent, Nat.le_of_succ_le_succ short⟩ ?_)
        exact mem_extensions_iff.mpr ⟨within, _, _, atEnd, branch, rfl⟩
  refine (upTo 11).subset ?_
  intro path inTree
  exact ⟨inTree, inTree.length_le⟩

end

/-! ### Callees that are followed -/

section

variable {ix : Adjacency} {i : Nat} {path : Path}

theorem nodup_branches (ix : Adjacency) (i : Nat) (path : Path) : (branches ix i path).Nodup := by
  unfold branches
  rw [List.map_take]
  refine List.Nodup.sublist (List.take_sublist _ _) ?_
  refine ((List.mergeSort_perm _ _).map Prod.fst).nodup_iff.mpr ?_
  exact (nodup_firstTargets [] _).1

theorem nodup_extensions (ix : Adjacency) (path : Path) : (extensions ix path).Nodup := by
  unfold extensions
  split
  · split
    · exact List.nodup_nil
    · refine (nodup_branches ix _ path).map ?_
      intro target other same
      exact List.singleton_inj.mp (List.append_cancel_left same)
  · exact List.nodup_nil

/-- Of entries of which some are left over, the first of each position are kept. -/
theorem firstTargets_ne_nil {targets : List (Nat × Float)} (some : targets ≠ []) :
    firstTargets [] targets ≠ [] := by
  cases targets with
  | nil => exact absurd rfl some
  | cons target rest => simp [firstTargets]

/-- A path goes on if a certain call leads off it. -/
theorem branches_ne_nil_iff :
    branches ix i path ≠ [] ↔ ∃ target, Follows ix i target ∧ target ∉ path := by
  constructor
  · intro some
    obtain ⟨target, member⟩ := List.exists_mem_of_ne_nil _ some
    exact ⟨target, follows_of_mem_branches member⟩
  · rintro ⟨target, ⟨e, leaving, certain⟩, new⟩
    have callee : (target, e.confidence) ∈ callees ix i path :=
      mem_callees.mpr ⟨e, leaving, certain, new, rfl⟩
    have kept := firstTargets_ne_nil (List.ne_nil_of_mem callee)
    have sorted : ∀ targets : List (Nat × Float), targets ≠ [] →
        ((Scalar.ranked (·.2) (fun a b => decide (ix.idAt a.1 ≤ ix.idAt b.1))
          targets).take mostBranches).map Prod.fst ≠ [] := by
      intro targets some
      have length : (Scalar.ranked (·.2) (fun a b => decide (ix.idAt a.1 ≤ ix.idAt b.1))
          targets).length = targets.length := List.length_mergeSort _
      have positive := List.length_pos_iff.mpr some
      rw [← List.length_pos_iff, List.length_map, List.length_take, length]
      exact lt_min (by decide) positive
    exact sorted _ kept

end

/-! ### Cuts -/

/-- Paths of the tree on different branches, one at least on each. -/
structure Cuts (ix : Adjacency) (entry : Nat) (paths : List Path) : Prop where
  inTree : ∀ path ∈ paths, InTree ix entry path
  apart : paths.Pairwise fun a b => ¬ a <+: b ∧ ¬ b <+: a
  covers : ∀ leaf, IsLeaf ix entry leaf → ∃ path ∈ paths, path <+: leaf

section

variable {ix : Adjacency} {entry : Nat} {path : Path} {paths rest queue finished looked : List Path}

theorem cuts_root (ix : Adjacency) (entry : Nat) : Cuts ix entry [[entry]] := by
  refine ⟨?_, List.pairwise_singleton _ _, ?_⟩
  · intro path member
    rw [List.mem_singleton.mp member]
    exact .root
  · rintro leaf ⟨inTree, -⟩
    refine ⟨[entry], List.mem_singleton_self _, ?_⟩
    induction inTree with
    | root => exact List.prefix_rfl
    | child _ _ _ _ ih => exact ih.trans (List.prefix_append _ _)

theorem Cuts.perm (cuts : Cuts ix entry paths) (perm : paths.Perm rest) : Cuts ix entry rest := by
  refine ⟨fun path member => cuts.inTree path (perm.mem_iff.mpr member), ?_, ?_⟩
  · exact (perm.pairwise_iff fun apart => apart.symm).mp cuts.apart
  · intro leaf isLeaf
    obtain ⟨path, member, begins⟩ := cuts.covers leaf isLeaf
    exact ⟨path, perm.mem_iff.mp member, begins⟩

theorem exists_extension {longer : Path} (member : longer ∈ extensions ix path) :
    ∃ target, longer = path ++ [target] := by
  obtain ⟨-, -, target, -, -, same⟩ := mem_extensions_iff.mp member
  exact ⟨target, same⟩

/-- Extensions of one path are on different branches. -/
theorem extensions_apart (ix : Adjacency) (path : Path) :
    (extensions ix path).Pairwise fun a b => ¬ a <+: b ∧ ¬ b <+: a := by
  refine (nodup_extensions ix path).imp_of_mem ?_
  intro a b inA inB different
  obtain ⟨target, rfl⟩ := exists_extension inA
  obtain ⟨target', rfl⟩ := exists_extension inB
  have lengths : (path ++ [target]).length = (path ++ [target']).length := by simp
  exact ⟨fun begins => different (begins.eq_of_length lengths),
    fun begins => different (begins.eq_of_length lengths.symm).symm⟩

/-- What is on another branch than a path is so for its extensions. -/
theorem apart_of_extension {longer other : Path} (member : longer ∈ extensions ix path)
    (apart : ¬ path <+: other ∧ ¬ other <+: path) : ¬ longer <+: other ∧ ¬ other <+: longer := by
  obtain ⟨target, rfl⟩ := exists_extension member
  obtain ⟨notBefore, notAfter⟩ := apart
  constructor
  · intro begins
    exact notBefore ((List.prefix_append _ _).trans begins)
  · intro begins
    rcases List.prefix_concat_iff.mp begins with rfl | shorter
    · exact notBefore (List.prefix_append _ _)
    · exact notAfter shorter

/-- A path that goes on may be replaced by its extensions. -/
theorem Cuts.extend (cuts : Cuts ix entry (path :: rest)) (goesOn : extensions ix path ≠ []) :
    Cuts ix entry (extensions ix path ++ rest) := by
  obtain ⟨here, others⟩ := List.forall_mem_cons.mp cuts.inTree
  obtain ⟨apart, apart'⟩ := List.pairwise_cons.mp cuts.apart
  refine ⟨?_, ?_, ?_⟩
  · intro other member
    rcases List.mem_append.mp member with new | old
    · exact here.extend new
    · exact others other old
  · rw [List.pairwise_append]
    exact ⟨extensions_apart ix path, apart',
      fun longer new other old => apart_of_extension new (apart other old)⟩
  · intro leaf isLeaf
    obtain ⟨other, member, begins⟩ := cuts.covers leaf isLeaf
    rcases List.mem_cons.mp member with rfl | old
    · have proper : other ≠ leaf := by
        rintro rfl
        exact goesOn (isLeaf_iff.mp isLeaf).2
      obtain ⟨longer, new, next⟩ := isLeaf.1.exists_next begins here.ne_nil proper
      exact ⟨longer, List.mem_append_left _ new, next⟩
    · exact ⟨other, List.mem_append_right _ old, begins⟩

/-- A path that waits may be replaced by its extensions at the end of the queue. -/
theorem Cuts.expand (cuts : Cuts ix entry (finished.reverse ++ path :: queue))
    (goesOn : extensions ix path ≠ []) :
    Cuts ix entry (finished.reverse ++ (queue ++ extensions ix path)) := by
  refine ((cuts.perm List.perm_middle).extend goesOn).perm (List.perm_append_comm.trans ?_)
  rw [List.append_assoc]

/-- The search keeps the cut that complete and waiting paths make. -/
theorem Cuts.explore (n : Nat) (cuts : Cuts ix entry (finished.reverse ++ queue)) :
    Cuts ix entry (explore ix n queue finished) := by
  fun_induction FlowTrace.explore ix n queue finished with
  | case1 n finished => rwa [List.append_nil] at cuts
  | case2 finished path queue => exact cuts
  | case3 finished n path queue stops ih =>
    apply ih
    rwa [List.reverse_cons, List.append_assoc, List.singleton_append]
  | case4 n path queue finished goesOn ih =>
    exact ih (cuts.expand goesOn)

/-- No path of a cut begins another one. -/
theorem Cuts.eq_of_prefix (cuts : Cuts ix entry paths) {other : Path} (member : path ∈ paths)
    (member' : other ∈ paths) (begins : path <+: other) : path = other := by
  by_contra different
  have symmetric : Std.Symm fun a b : Path => ¬ a <+: b ∧ ¬ b <+: a :=
    ⟨fun _ _ apart => apart.symm⟩
  exact (cuts.apart.forall member member' different).1 begins

theorem Cuts.nodup (cuts : Cuts ix entry paths) : paths.Nodup := by
  refine cuts.apart.imp ?_
  rintro path _ ⟨apart, -⟩ rfl
  exact apart List.prefix_rfl

/-- Every leaf has exactly one of the paths of a cut as its beginning. -/
theorem Cuts.existsUnique (cuts : Cuts ix entry paths) {leaf : Path} (isLeaf : IsLeaf ix entry leaf) :
    ∃! path, path ∈ paths ∧ path <+: leaf := by
  obtain ⟨path, member, begins⟩ := cuts.covers leaf isLeaf
  refine ⟨path, ⟨member, begins⟩, ?_⟩
  rintro other ⟨member', begins'⟩
  -- two beginnings of one path are beginnings of each other
  rcases List.prefix_or_prefix_of_prefix begins' begins with before | after
  · exact cuts.eq_of_prefix member' member before
  · exact (cuts.eq_of_prefix member member' after).symm

/-- Paths of the tree that have been looked at. None of them continues a path that waits. -/
structure Passed (ix : Adjacency) (entry : Nat) (looked queue : List Path) : Prop where
  once : looked.Nodup
  inTree : ∀ path ∈ looked, InTree ix entry path
  fresh : ∀ path ∈ queue, ∀ old ∈ looked, ¬ path <+: old

theorem passed_nil (ix : Adjacency) (entry : Nat) (queue : List Path) : Passed ix entry [] queue :=
  ⟨List.nodup_nil, by simp, by simp⟩

/-- As long as a path waits, fewer paths have been looked at than the tree has. -/
theorem Passed.length_lt (passed : Passed ix entry looked (path :: queue))
    (waits : InTree ix entry path) : looked.length < {path | InTree ix entry path}.ncard := by
  have new : path ∉ looked :=
    fun old => passed.fresh path List.mem_cons_self path old List.prefix_rfl
  have distinct : (path :: looked).Nodup := List.nodup_cons.mpr ⟨new, passed.once⟩
  have inside : (↑(path :: looked).toFinset : Set Path) ⊆ {path | InTree ix entry path} := by
    intro other member
    rw [List.coe_toFinset] at member
    exact List.forall_mem_cons.mpr ⟨waits, passed.inTree⟩ other member
  have count := Set.ncard_le_ncard inside (inTree_finite ix entry)
  rw [Set.ncard_coe_finset, List.toFinset_card_of_nodup distinct, List.length_cons] at count
  exact count

/-- Looking at a path puts its extensions, if there are any, at the end of the queue. -/
theorem Passed.look (passed : Passed ix entry looked (path :: queue)) (waits : InTree ix entry path)
    (apart : ∀ other ∈ queue, ¬ other <+: path) :
    Passed ix entry (path :: looked) (queue ++ extensions ix path) := by
  have here := passed.fresh path List.mem_cons_self
  have new : path ∉ looked := fun old => here path old List.prefix_rfl
  refine ⟨List.nodup_cons.mpr ⟨new, passed.once⟩,
    List.forall_mem_cons.mpr ⟨waits, passed.inTree⟩, ?_⟩
  intro other member old inLooked
  rcases List.mem_append.mp member with waiting | grown
  · rcases List.mem_cons.mp inLooked with rfl | before
    · exact apart other waiting
    · exact passed.fresh other (List.mem_cons_of_mem _ waiting) old before
  · obtain ⟨-, -, target, -, -, rfl⟩ := mem_extensions_iff.mp grown
    intro begins
    rcases List.mem_cons.mp inLooked with rfl | before
    · have lengths := begins.length_le
      rw [List.length_append, List.length_singleton] at lengths
      omega
    · exact here old before ((List.prefix_append _ _).trans begins)

/-- A search that may look at as many paths as the tree has finds leaves only. -/
theorem explore_leaves {n : Nat}
    (budget : {path | InTree ix entry path}.ncard ≤ looked.length + n)
    (passed : Passed ix entry looked queue) (cuts : Cuts ix entry (finished.reverse ++ queue))
    (leaves : ∀ path ∈ finished, IsLeaf ix entry path) :
    ∀ path ∈ explore ix n queue finished, IsLeaf ix entry path := by
  induction n generalizing looked queue finished with
  | zero =>
    cases queue with
    | nil => simpa [FlowTrace.explore] using leaves
    | cons path queue =>
      have waits := cuts.inTree path (List.mem_append_right _ List.mem_cons_self)
      have more := passed.length_lt waits
      omega
  | succ n ih =>
    cases queue with
    | nil => simpa [FlowTrace.explore] using leaves
    | cons path queue =>
      have waits := cuts.inTree path (List.mem_append_right _ List.mem_cons_self)
      have apart := List.pairwise_cons.mp (List.pairwise_append.mp cuts.apart).2.1
      have next := passed.look waits fun other member => (apart.1 other member).2
      have less : {path | InTree ix entry path}.ncard ≤ (path :: looked).length + n := by
        rw [List.length_cons]
        omega
      rw [FlowTrace.explore]
      cases found : extensions ix path with
      | nil =>
        rw [found, List.append_nil] at next
        refine ih less next ?_ (List.forall_mem_cons.mpr ⟨isLeaf_iff.mpr ⟨waits, found⟩, leaves⟩)
        rwa [List.reverse_cons, List.append_assoc, List.singleton_append]
      | cons first others =>
        have goesOn : extensions ix path ≠ [] := by simp [found]
        have rest := ih less next (cuts.expand goesOn) leaves
        rwa [found] at rest

theorem explore_ne_nil {n : Nat} (some : queue ≠ [] ∨ finished ≠ []) :
    explore ix n queue finished ≠ [] := by
  fun_induction FlowTrace.explore ix n queue finished with
  | case1 n finished => simpa using some
  | case2 finished path queue => simp
  | case3 finished n path queue stops ih => exact ih (.inr (List.cons_ne_nil _ _))
  | case4 n path queue finished goesOn ih =>
    exact ih (.inl (List.append_ne_nil_of_right_ne_nil _ goesOn))

/-! ### What is found -/

theorem extensions_root_iff (ix : Adjacency) (entry : Nat) :
    extensions ix [entry] ≠ [] ↔ ∃ target ≠ entry, Follows ix entry target := by
  have unfolded : extensions ix [entry] =
      (branches ix entry [entry]).map fun target => [entry] ++ [target] := rfl
  rw [unfolded, ne_eq, List.map_eq_nil_iff, ← ne_eq, branches_ne_nil_iff]
  simp only [List.mem_singleton, and_comm]

/-- What is found from an entry point cuts the tree, if the tree is more than the entry point. -/
theorem pathsFrom_cuts (callee : ∃ target ≠ entry, Follows ix entry target) :
    pathsFrom ix entry = explore ix mostSteps [[entry]] [] ∧ Cuts ix entry (pathsFrom ix entry) := by
  have goesOn := (extensions_root_iff ix entry).mpr callee
  -- the entry point is looked at first, and what takes its place is longer
  have first : explore ix mostSteps [[entry]] [] =
      explore ix (mostSteps - 1) (extensions ix [entry]) [] := by
    show explore ix (mostSteps - 1 + 1) [[entry]] [] = _
    rw [explore]
    cases found : extensions ix [entry] with
    | nil => exact absurd found goesOn
    | cons path others => rfl
  have long : ∀ path ∈ explore ix mostSteps [[entry]] [], 2 ≤ path.length := by
    rw [first]
    refine explore_all (P := fun path => 2 ≤ path.length) ?_ _ _ _ ?_ (by simp)
    · intro path atLeast longer member
      have grown := (length_of_mem_extensions member).1
      omega
    · intro path member
      exact (length_of_mem_extensions member).1.ge
  have whole : pathsFrom ix entry = explore ix mostSteps [[entry]] [] := by
    rw [pathsFrom, List.filter_eq_self]
    exact fun path member => decide_eq_true (long path member)
  refine ⟨whole, ?_⟩
  rw [whole]
  exact (cuts_root ix entry).explore mostSteps

theorem pathsFrom_ne_nil (callee : ∃ target ≠ entry, Follows ix entry target) :
    pathsFrom ix entry ≠ [] := by
  rw [(pathsFrom_cuts callee).1]
  exact explore_ne_nil (.inl (List.cons_ne_nil _ _))

/-- The paths from an entry point cut the tree of its paths: they are paths of the tree, none begins
another one, and every leaf has exactly one of them as its beginning. Of a tree that is not larger
than the search they are the leaves. From an entry point that calls nothing there is no path. -/
theorem pathsFrom_cutTree (ix : Adjacency) (entry : Nat) :
    ((∃ target ≠ entry, Follows ix entry target) →
      (pathsFrom ix entry).Nodup ∧
        (∀ path ∈ pathsFrom ix entry, InTree ix entry path ∧ 2 ≤ path.length) ∧
        (∀ path ∈ pathsFrom ix entry, ∀ other ∈ pathsFrom ix entry, path <+: other →
          path = other) ∧
        (∀ leaf, IsLeaf ix entry leaf → ∃! path, path ∈ pathsFrom ix entry ∧ path <+: leaf) ∧
        {path | InTree ix entry path}.Finite ∧
        ({path | InTree ix entry path}.ncard ≤ 512 →
          ∀ path, path ∈ pathsFrom ix entry ↔ IsLeaf ix entry path)) ∧
      ((¬ ∃ target ≠ entry, Follows ix entry target) → pathsFrom ix entry = []) := by
  constructor
  · intro callee
    obtain ⟨whole, cuts⟩ := pathsFrom_cuts callee
    refine ⟨cuts.nodup, ?_, fun path member other member' => cuts.eq_of_prefix member member',
      fun leaf isLeaf => cuts.existsUnique isLeaf, inTree_finite ix entry, ?_⟩
    · intro path member
      exact ⟨cuts.inTree path member, (walk_of_mem_pathsFrom member).2⟩
    · intro small path
      have leaves : ∀ path ∈ pathsFrom ix entry, IsLeaf ix entry path := by
        rw [whole]
        have passed : Passed ix entry [] [[entry]] := passed_nil ix entry _
        refine explore_leaves ?_ passed (cuts_root ix entry) (by simp)
        rw [List.length_nil, Nat.zero_add]
        exact small
      refine ⟨leaves path, fun isLeaf => ?_⟩
      obtain ⟨other, member, begins⟩ := cuts.covers path isLeaf
      by_contra absent
      -- a leaf that begins this one and is another one would go on
      have proper : other ≠ path := fun same => absent (same ▸ member)
      obtain ⟨longer, next, -⟩ :=
        isLeaf.1.exists_next begins (cuts.inTree other member).ne_nil proper
      rw [(isLeaf_iff.mp (leaves other member)).2] at next
      cases next
  · intro none
    have stops : extensions ix [entry] = [] :=
      not_not.mp (mt (extensions_root_iff ix entry).mp none)
    have only : explore ix mostSteps [[entry]] [] = [[entry]] := by
      show explore ix (mostSteps - 1 + 1) [[entry]] [] = _
      rw [explore, stops]
      rfl
    rw [pathsFrom, only]
    rfl

end

end CodeAtlas.FlowTrace
