import CodeAtlas.Flow.Detect
import CodeAtlas.Proofs.Flow.Trace
import CodeAtlas.Proofs.Double.Order
import CodeAtlas.Proofs.Text.Order
import Mathlib.Data.List.Infix
import Mathlib.Data.String.Basic

/-!
# Flows are walks along calls

Every flow is a walk along calls between different known nodes that starts at a function or class.
The flows are numbered, the longest first, and there are at most as many as the limit says. A flow
crosses communities if two of its steps are in communities with different ids.
-/

namespace CodeAtlas.Flows

open FlowTrace

/-! ### The order of paths -/

theorem idsBefore_cons_iff {a b : String} {as bs : List String} :
    idsBefore (a :: as) (b :: bs) = true ↔ a < b ∨ a = b ∧ idsBefore as bs = true := by
  rw [idsBefore]
  rcases lt_trichotomy a b with less | same | greater
  · simp [less]
  · simp [same]
  · simp [greater, greater.not_gt, greater.ne']

theorem idsBefore_total (as bs : List String) :
    idsBefore as bs = true ∨ idsBefore bs as = true := by
  induction as generalizing bs with
  | nil => exact .inl rfl
  | cons a as ih =>
    cases bs with
    | nil => exact .inr rfl
    | cons b bs =>
      rw [idsBefore_cons_iff, idsBefore_cons_iff]
      rcases lt_trichotomy a b with less | same | greater
      · exact .inl (.inl less)
      · exact (ih bs).imp (fun before => .inr ⟨same, before⟩) fun after => .inr ⟨same.symm, after⟩
      · exact .inr (.inl greater)

theorem idsBefore_trans {as bs cs : List String} (ab : idsBefore as bs = true)
    (bc : idsBefore bs cs = true) : idsBefore as cs = true := by
  induction as generalizing bs cs with
  | nil => rfl
  | cons a as ih =>
    cases bs with
    | nil => cases ab
    | cons b bs =>
      cases cs with
      | nil => cases bc
      | cons c cs =>
        rw [idsBefore_cons_iff] at ab bc ⊢
        rcases ab with less | ⟨rfl, before⟩
        · rcases bc with less' | ⟨rfl, -⟩
          · exact .inl (less.trans less')
          · exact .inl less
        · rcases bc with less | ⟨rfl, before'⟩
          · exact .inl less
          · exact .inr ⟨rfl, ih before before'⟩

theorem idsBefore_antisymm {as bs : List String} (before : idsBefore as bs = true)
    (after : idsBefore bs as = true) : as = bs := by
  induction as generalizing bs with
  | nil =>
    cases bs with
    | nil => rfl
    | cons b bs => cases after
  | cons a as ih =>
    cases bs with
    | nil => cases before
    | cons b bs =>
      rw [idsBefore_cons_iff] at before after
      rcases before with less | ⟨rfl, before⟩
      · rcases after with greater | ⟨rfl, -⟩
        · exact absurd less greater.not_gt
        · exact absurd less (lt_irrefl _)
      · rcases after with less | ⟨-, after⟩
        · exact absurd less (lt_irrefl _)
        · rw [ih before after]

/-- Of the sorted paths those are kept, in their order, that say something new. -/
theorem exists_keepDistinct (kept paths : List Path) :
    ∃ new, keepDistinct kept paths = kept.reverse ++ new ∧ new.Sublist paths := by
  fun_induction keepDistinct kept paths with
  | case1 kept => exact ⟨[], (List.append_nil _).symm, List.Sublist.refl _⟩
  | case2 kept path rest sameEnds ih =>
    obtain ⟨new, eq, sub⟩ := ih
    exact ⟨new, eq, sub.trans (List.sublist_cons_self _ _)⟩
  | case3 kept path rest differentEnds subsumed ih =>
    obtain ⟨new, eq, sub⟩ := ih
    exact ⟨new, eq, sub.trans (List.sublist_cons_self _ _)⟩
  | case4 kept path rest differentEnds novel ih =>
    obtain ⟨new, eq, sub⟩ := ih
    refine ⟨path :: new, ?_, sub.cons_cons path⟩
    rw [eq, List.reverse_cons, List.append_assoc, List.singleton_append]

theorem distinctPaths_sublist (ix : Adjacency) (paths : List Path) :
    (distinctPaths ix paths).Sublist (paths.mergeSort (pathBefore ix)) := by
  obtain ⟨new, eq, sub⟩ := exists_keepDistinct [] (paths.mergeSort (pathBefore ix))
  rw [distinctPaths, eq]
  exact sub

/-- Paths are in order of their lengths, those of one length in order of their ids. -/
theorem pathBefore_goesBy (ix : Adjacency) :
    Text.GoesBy (fun path : Path => OrderDual.toDual path.length)
      (fun a b => idsBefore (a.map ix.idAt) (b.map ix.idAt)) (pathBefore ix) :=
  fun _ _ => rfl

/-- The longer paths come first. -/
theorem distinctPaths_lengths (ix : Adjacency) (paths : List Path) :
    (distinctPaths ix paths).Pairwise fun a b => b.length ≤ a.length := by
  have sorted := (pathBefore_goesBy ix).sorted_keys (fun _ _ _ => idsBefore_trans)
    (fun _ _ => idsBefore_total _ _) paths
  exact sorted.sublist (distinctPaths_sublist ix paths)

/-! ### Communities of steps -/

section

variable {communities : List Community} {id cid : String}

theorem getElem?_foldl_members (members : List String) (found : Std.HashMap String String) :
    (members.foldl (fun found m => found.insert m cid) found)[id]? =
      if id ∈ members then some cid else found[id]? := by
  induction members generalizing found with
  | nil => simp
  | cons m rest ih =>
    rw [List.foldl_cons, ih, Std.HashMap.getElem?_insert]
    by_cases later : id ∈ rest
    · simp [later]
    · by_cases here : m = id
      · simp [here]
      · simp [later, here, Ne.symm here]

/-- Where no two communities share a member, an id belongs to the one that lists it. -/
theorem membership_iff
    (apart : communities.Pairwise fun c d => c.memberIds.Disjoint d.memberIds) :
    (Communities.membership communities)[id]? = some cid ↔
      ∃ c ∈ communities, id ∈ c.memberIds ∧ c.id = cid := by
  induction communities using List.reverseRecOn with
  | nil => simp [Communities.membership]
  | append_singleton rest last ih =>
    rw [List.pairwise_append] at apart
    obtain ⟨before, -, disjoint⟩ := apart
    have unfolded : Communities.membership (rest ++ [last]) =
        last.memberIds.foldl (fun found m => found.insert m last.id)
          (Communities.membership rest) := by
      rw [Communities.membership, List.foldl_append]
      rfl
    rw [unfolded, getElem?_foldl_members]
    by_cases listed : id ∈ last.memberIds
    · rw [if_pos listed, Option.some.injEq]
      constructor
      · rintro rfl
        exact ⟨last, by simp, listed, rfl⟩
      · rintro ⟨c, member, inside, rfl⟩
        rcases List.mem_append.mp member with earlier | isLast
        · exact absurd listed (disjoint c earlier last (List.mem_singleton_self last) inside)
        · rw [List.mem_singleton.mp isLast]
    · rw [if_neg listed, ih before]
      constructor
      · rintro ⟨c, member, inside, same⟩
        exact ⟨c, List.mem_append_left _ member, inside, same⟩
      · rintro ⟨c, member, inside, same⟩
        rcases List.mem_append.mp member with earlier | isLast
        · exact ⟨c, earlier, inside, same⟩
        · exact absurd (List.mem_singleton.mp isLast ▸ inside) listed

theorem crosses_iff (communityOf : String → Option String) (ids : List String) :
    crosses communityOf ids = true ↔
      ∃ s ∈ ids, ∃ t ∈ ids, ∃ c d, communityOf s = some c ∧ communityOf t = some d ∧ c ≠ d := by
  have found : ∀ c, c ∈ ids.filterMap communityOf ↔ ∃ s ∈ ids, communityOf s = some c := by
    intro c
    exact List.mem_filterMap
  have differ : crosses communityOf ids = true ↔ ∃ c ∈ ids.filterMap communityOf,
      ∃ d ∈ ids.filterMap communityOf, c ≠ d := by
    unfold crosses
    cases ids.filterMap communityOf with
    | nil => simp
    | cons first rest =>
      simp only [List.any_eq_true, decide_eq_true_eq]
      constructor
      · rintro ⟨other, member, different⟩
        exact ⟨other, List.mem_cons_of_mem _ member, first, List.mem_cons_self, different⟩
      · rintro ⟨c, inC, d, inD, different⟩
        -- Of two different ones, one at least is not the first.
        by_cases same : c = first
        · subst same
          refine ⟨d, ?_, different.symm⟩
          exact (List.mem_cons.mp inD).resolve_left different.symm
        · exact ⟨c, (List.mem_cons.mp inC).resolve_left same, same⟩
  rw [differ]
  constructor
  · rintro ⟨c, inC, d, inD, different⟩
    obtain ⟨s, inS, foundC⟩ := (found c).mp inC
    obtain ⟨t, inT, foundD⟩ := (found d).mp inD
    exact ⟨s, inS, t, inT, c, d, foundC, foundD, different⟩
  · rintro ⟨s, inS, t, inT, c, d, foundC, foundD, different⟩
    exact ⟨c, (found c).mpr ⟨s, inS, foundC⟩, d, (found d).mpr ⟨t, inT, foundD⟩, different⟩

end

/-! ### Steps -/

section

variable {nodes : List Node} {edges : List Edge} {i j entry : Nat} {path : Path}

/-- A call from one id to another is among the edges, and its certainty is one half at least. A
certainty that is no number is not less than one half and not more either. -/
def CallsSurely (edges : List Edge) (a b : String) : Prop :=
  ∃ e ∈ edges, e.kind = .calls ∧ e.source = a ∧ e.target = b ∧
    (Double.Number e.confidence → 0.5 ≤ e.confidence)

theorem known_of_follows (follows : Follows (Adjacency.ofParts nodes edges) i j) :
    (∃ id, (Adjacency.ofParts nodes edges).position? id = some i) ∧
      ∃ id, (Adjacency.ofParts nodes edges).position? id = some j := by
  obtain ⟨e, leaving, -⟩ := follows
  obtain ⟨-, -, source, target⟩ := Adjacency.mem_outgoing.mp leaving
  exact ⟨⟨_, source⟩, ⟨_, target⟩⟩

theorem callsSurely_of_follows (follows : Follows (Adjacency.ofParts nodes edges) i j) :
    CallsSurely edges ((Adjacency.ofParts nodes edges).idAt i)
      ((Adjacency.ofParts nodes edges).idAt j) := by
  obtain ⟨e, leaving, sure⟩ := follows
  obtain ⟨listed, kind, source, target⟩ := Adjacency.mem_outgoing.mp leaving
  have half : Double.Number 0.5 := (Double.number_of_le (y := 0.5) (by decide)).1
  refine ⟨e, listed, List.mem_singleton.mp kind, (Adjacency.idAt_of_position? source).symm,
    (Adjacency.idAt_of_position? target).symm, ?_⟩
  intro number
  exact (Double.not_lt_iff number half).mp sure

/-- Every position on a walk of two positions or more is that of an id. -/
theorem known_of_walk (walk : Walk (Adjacency.ofParts nodes edges) entry path)
    (long : 2 ≤ path.length) :
    ∀ i ∈ path, ∃ id, (Adjacency.ofParts nodes edges).position? id = some i := by
  have chain := walk.chain
  clear walk
  induction path with
  | nil => simp
  | cons i rest ih =>
    cases rest with
    | nil => simp at long
    | cons j rest =>
      obtain ⟨follows, later⟩ := List.isChain_cons_cons.mp chain
      obtain ⟨knownI, knownJ⟩ := known_of_follows follows
      cases rest with
      | nil =>
        intro k member
        rcases List.mem_cons.mp member with rfl | next
        · exact knownI
        · exact List.mem_singleton.mp next ▸ knownJ
      | cons l rest =>
        intro k member
        rcases List.mem_cons.mp member with rfl | next
        · exact knownI
        · exact ih (by simp) later k next

/-- The best entry points are positions of functions and classes. -/
theorem callable_of_mem_top {ix : Adjacency} {score : Float}
    (member : (i, score) ∈ EntryPoint.top ix) :
    ∃ n, ix.node? i = some n ∧ n.kind.isCallable = true := by
  have candidate := List.mem_of_mem_take member
  rw [EntryPoint.candidates, Scalar.ranked, List.mem_mergeSort] at candidate
  obtain ⟨⟨n, k⟩, listed, made⟩ := List.mem_filterMap.mp (List.mem_filter.mp candidate).1
  dsimp only at made
  split at made
  · next callable =>
    obtain ⟨rfl, -⟩ := Prod.mk.inj (Option.some.inj made)
    have here := List.mem_zipIdx_iff_getElem?.mp listed
    rw [Array.getElem?_toList] at here
    exact ⟨n, here, callable⟩
  · cases made

end

/-! ### Flows -/

/-- What a flow is: a walk along calls between different known nodes, from a function or class on. -/
structure IsFlow (nodes : List Node) (edges : List Edge) (communities : List Community)
    (f : Flow) : Prop where
  once : f.steps.Nodup
  known : ∀ s ∈ f.steps, s ∈ nodes.map Node.id
  length : 2 ≤ f.steps.length ∧ f.steps.length ≤ 11
  count : f.stepCount = f.steps.length
  start : f.steps.head? = some f.entryPoint
  finish : f.steps.getLast? = some f.terminalPoint
  callable : ∃ n, nodes.find? (·.id == f.entryPoint) = some n ∧
    (n.kind = .function ∨ n.kind = .classType)
  calls : f.steps.IsChain (CallsSurely edges)
  crosses : f.crossCommunity = true ↔ ∃ c ∈ communities, ∃ d ∈ communities, c.id ≠ d.id ∧
    (∃ s ∈ f.steps, s ∈ c.memberIds) ∧ ∃ s ∈ f.steps, s ∈ d.memberIds

section

variable {nodes : List Node} {edges : List Edge} {communities : List Community} {entry : Nat}
  {path : Path}

theorem isCallable_iff (kind : NodeKind) :
    kind.isCallable = true ↔ kind = .function ∨ kind = .classType := by
  cases kind <;> simp [NodeKind.isCallable]

theorem steps_nodup (walk : Walk (Adjacency.ofParts nodes edges) entry path)
    (long : 2 ≤ path.length) : (path.map (Adjacency.ofParts nodes edges).idAt).Nodup := by
  have known := known_of_walk walk long
  apply walk.once.map_on
  intro i inPath j inPath' same
  have back := congrArg (Adjacency.ofParts nodes edges).position? same
  rw [Adjacency.position?_idAt (known i inPath), Adjacency.position?_idAt (known j inPath')] at back
  exact Option.some.inj back

theorem crosses_steps (apart : communities.Pairwise fun c d => c.memberIds.Disjoint d.memberIds)
    (steps : List String) :
    crosses ((Communities.membership communities)[·]?) steps = true ↔
      ∃ c ∈ communities, ∃ d ∈ communities, c.id ≠ d.id ∧
        (∃ s ∈ steps, s ∈ c.memberIds) ∧ ∃ s ∈ steps, s ∈ d.memberIds := by
  rw [crosses_iff]
  constructor
  · rintro ⟨s, inS, t, inT, _, _, ofS, ofT, different⟩
    obtain ⟨c, inC, memberS, rfl⟩ := (membership_iff apart).mp ofS
    obtain ⟨d, inD, memberT, rfl⟩ := (membership_iff apart).mp ofT
    exact ⟨c, inC, d, inD, different, ⟨s, inS, memberS⟩, t, inT, memberT⟩
  · rintro ⟨c, inC, d, inD, different, ⟨s, inS, memberS⟩, t, inT, memberT⟩
    exact ⟨s, inS, t, inT, c.id, d.id, (membership_iff apart).mpr ⟨c, inC, memberS, rfl⟩,
      (membership_iff apart).mpr ⟨d, inD, memberT, rfl⟩, different⟩

/-- A walk of two positions or more from a function or class makes a flow. -/
theorem isFlow_ofPath (apart : communities.Pairwise fun c d => c.memberIds.Disjoint d.memberIds)
    (walk : Walk (Adjacency.ofParts nodes edges) entry path) (long : 2 ≤ path.length)
    (callable : ∃ n, (Adjacency.ofParts nodes edges).node? entry = some n ∧
      n.kind.isCallable = true) (number : Nat) :
    IsFlow nodes edges communities (ofPath (Adjacency.ofParts nodes edges)
      ((Communities.membership communities)[·]?) number path) := by
  have known := known_of_walk walk long
  have starts : path.headD 0 = entry := by
    rw [List.headD_eq_head?_getD, walk.start, Option.getD_some]
  have startsHere : entry ∈ path := List.mem_of_mem_head? walk.start
  constructor
  · exact steps_nodup walk long
  · intro s listed
    obtain ⟨i, inPath, rfl⟩ := List.mem_map.mp listed
    obtain ⟨id, found⟩ := known i inPath
    rw [Adjacency.idAt_of_position? found]
    exact Adjacency.exists_position?_iff.mp ⟨i, found⟩
  · show 2 ≤ (path.map _).length ∧ (path.map _).length ≤ 11
    rw [List.length_map]
    exact ⟨long, walk.length⟩
  · rfl
  · show (path.map _).head? = some ((Adjacency.ofParts nodes edges).idAt (path.headD 0))
    rw [List.head?_map, walk.start, starts, Option.map_some]
  · show (path.map _).getLast? = some ((Adjacency.ofParts nodes edges).idAt (path.getLastD 0))
    have nonempty : path ≠ [] := List.ne_nil_of_mem startsHere
    rw [List.getLast?_map, List.getLastD_eq_getLast?, List.getLast?_eq_some_getLast nonempty,
      Option.map_some, Option.getD_some]
  · show ∃ n, nodes.find? (·.id == (Adjacency.ofParts nodes edges).idAt (path.headD 0)) = some n ∧ _
    obtain ⟨id, found⟩ := known entry startsHere
    obtain ⟨n, here, -, first⟩ := Adjacency.node_of_position? found
    obtain ⟨n', here', kind⟩ := callable
    have same : nodes[entry]? = some n' := by
      simpa [Adjacency.node?, Adjacency.ofParts] using here'
    obtain rfl := Option.some.inj (here.symm.trans same)
    rw [starts, Adjacency.idAt_of_position? found]
    exact ⟨n, first, (isCallable_iff n.kind).mp kind⟩
  · show (path.map _).IsChain _
    rw [List.isChain_map]
    exact walk.chain.imp fun i j follows => callsSurely_of_follows follows
  · exact crosses_steps apart _

/-- The paths from the best entry points. -/
def tracedPaths (ix : Adjacency) : List Path :=
  (EntryPoint.top ix).flatMap fun (entry, _) => pathsFrom ix entry

theorem ofParts_eq (nodes : List Node) (edges : List Edge) (communities : List Community) :
    ofParts nodes edges communities =
      ((distinctPaths (Adjacency.ofParts nodes edges)
          (tracedPaths (Adjacency.ofParts nodes edges))).take maxFlows).zipIdx.map fun x =>
        ofPath (Adjacency.ofParts nodes edges) ((Communities.membership communities)[·]?) x.2 x.1 :=
  rfl

/-- The flows of a graph are walks along calls; they are numbered, the longest first, and few. The
search for paths ends from every entry point. -/
theorem ofParts_flows (nodes : List Node) (edges : List Edge) {communities : List Community}
    (apart : communities.Pairwise fun c d => c.memberIds.Disjoint d.memberIds) :
    (∀ f ∈ ofParts nodes edges communities, IsFlow nodes edges communities f) ∧
      (ofParts nodes edges communities).length ≤ 75 ∧
      (∀ (i : Nat) f, (ofParts nodes edges communities)[i]? = some f →
        f.id = "process:" ++ toString i) ∧
      ((ofParts nodes edges communities).Pairwise fun f g => g.stepCount ≤ f.stepCount) ∧
      ∀ entry, ∃ n ≤ 2049, ∃ paths,
        Tracing.Ends (Adjacency.ofParts nodes edges) n ⟨0, [[entry]], []⟩ paths ∧
          pathsFrom (Adjacency.ofParts nodes edges) entry = paths.filter (2 ≤ ·.length) := by
  refine ⟨?_, ?_, ?_, ?_, pathsFrom_ends _⟩
  · intro f member
    rw [ofParts_eq] at member
    obtain ⟨⟨path, number⟩, listed, rfl⟩ := List.mem_map.mp member
    have kept := List.mem_of_mem_take (List.fst_mem_of_mem_zipIdx listed)
    have sorted := (distinctPaths_sublist _ _).subset kept
    obtain ⟨⟨entry, score⟩, best, traced⟩ := List.mem_flatMap.mp (List.mem_mergeSort.mp sorted)
    obtain ⟨walk, long⟩ := walk_of_mem_pathsFrom traced
    exact isFlow_ofPath apart walk long (callable_of_mem_top best) number
  · rw [ofParts_eq, List.length_map, List.length_zipIdx]
    exact List.length_take_le _ _
  · intro i f found
    rw [ofParts_eq, List.getElem?_map, List.getElem?_zipIdx, Option.map_map] at found
    obtain ⟨path, -, rfl⟩ := Option.map_eq_some_iff.mp found
    show "process:" ++ toString (0 + i) = "process:" ++ toString i
    rw [Nat.zero_add]
  · have lengths := (distinctPaths_lengths (Adjacency.ofParts nodes edges)
      (tracedPaths (Adjacency.ofParts nodes edges))).sublist (List.take_sublist maxFlows _)
    rw [ofParts_eq, List.pairwise_map]
    rw [← List.zipIdx_map_fst 0 (List.take maxFlows _), List.pairwise_map] at lengths
    refine lengths.imp ?_
    intro x y shorter
    show (y.1.map _).length ≤ (x.1.map _).length
    rwa [List.length_map, List.length_map]

/-- Two functions that call each other, each in a community of its own. -/
theorem ofParts_flows_cycle :
    let f := Node.ofSymbol .function "main" "a.py" "python" 1 2
    let g := Node.ofSymbol .function "load" "a.py" "python" 3 4
    let edges := [Edge.make f.id g.id .calls 0.85 "same-file",
      Edge.make g.id f.id .calls 0.85 "same-file"]
    let communities : List Community := [⟨"community:0", "a/main", [], 1.0, 1, [f.id]⟩,
      ⟨"community:1", "a/load", [], 1.0, 1, [g.id]⟩]
    (communities.Pairwise fun c d => c.memberIds.Disjoint d.memberIds) ∧
      ∀ x ∈ ofParts [f, g] edges communities, IsFlow [f, g] edges communities x := by
  intro f g edges communities
  have apart : communities.Pairwise fun c d => c.memberIds.Disjoint d.memberIds := by
    have different : f.id ≠ g.id := by decide
    simpa [communities] using different
  exact ⟨apart, (ofParts_flows [f, g] edges apart).1⟩

end

end CodeAtlas.Flows
