import CodeAtlas.Proofs.Text.Order
import CodeAtlas.Repository.Store
import Mathlib.Data.List.Nodup
import Mathlib.Data.String.Basic
import Mathlib.Tactic.IntervalCases

/-!
# Room in the cache

A request takes at most an expired entry out of the cache. An insertion takes the expired entries
out; of the live ones under other names at most one has to go, and then the one that expires first.
-/

namespace CodeAtlas.GraphStore

/-! ### Entries by name -/

section

variable {c : GraphStore} {key : String} {e : StoredGraph}

theorem isSome_find?_iff : (c.find? key).isSome = true ↔ key ∈ c.entries.map Prod.fst := by
  rw [find?, Option.isSome_map, List.find?_isSome, List.mem_map]
  simp only [beq_iff_eq]

/-- With distinct names, what is found under a name is the entry under it. -/
theorem find?_eq_some_iff (distinct : (c.entries.map Prod.fst).Nodup) :
    c.find? key = some e ↔ (key, e) ∈ c.entries := by
  constructor
  · intro found
    obtain ⟨⟨name, e'⟩, first, rfl⟩ := Option.map_eq_some_iff.mp found
    have same : name = key := by simpa using List.find?_some first
    rw [← same]
    exact List.mem_of_find?_eq_some first
  · intro listed
    have some : (c.find? key).isSome = true :=
      isSome_find?_iff.mpr (List.mem_map_of_mem listed)
    obtain ⟨e', found⟩ := Option.isSome_iff_exists.mp some
    obtain ⟨⟨name, e''⟩, first, rfl⟩ := Option.map_eq_some_iff.mp found
    have same : name = key := by simpa using List.find?_some first
    have equal := List.inj_on_of_nodup_map distinct (List.mem_of_find?_eq_some first) listed same
    rw [found, equal]

/-- With distinct names there is one entry under a name. -/
theorem entry_unique (distinct : (c.entries.map Prod.fst).Nodup) {e' : StoredGraph}
    (listed : (key, e) ∈ c.entries) (listed' : (key, e') ∈ c.entries) : e = e' :=
  (Prod.mk.inj (List.inj_on_of_nodup_map distinct listed listed' rfl)).2

end

/-- Whether a cache keeps its bound, and under each name one graph at most, whose name it is. -/
structure Sound (c : GraphStore) : Prop where
  room : 1 ≤ c.capacity
  bounded : c.entries.length ≤ c.capacity
  distinct : (c.entries.map Prod.fst).Nodup
  own : ∀ x ∈ c.entries, x.1 = x.2.graph.key

/-- Fewer entries are as sound. -/
theorem Sound.sublist {c c' : GraphStore} (sound : c.Sound) (same : c'.capacity = c.capacity)
    (fewer : c'.entries.Sublist c.entries) : c'.Sound where
  room := by
    rw [same]
    exact sound.room
  bounded := by
    rw [same]
    exact fewer.length_le.trans sound.bounded
  distinct := sound.distinct.sublist (fewer.map Prod.fst)
  own x listed := sound.own x (fewer.subset listed)

theorem sound_empty (s : CacheSettings) : (empty s).Sound where
  room := Nat.le_max_right _ _
  bounded := Nat.zero_le _
  distinct := List.nodup_nil
  own _ listed := absurd listed List.not_mem_nil

/-! ### Requests -/

section

variable {c : GraphStore} {now : Nat} {owner repo : String} {branch : Option String}

/-- What may differ in a cache after a request: expired entries may be gone, and the request is
counted. -/
structure Keeps (now : Nat) (c c' : GraphStore) : Prop where
  ttl : c'.ttl = c.ttl
  capacity : c'.capacity = c.capacity
  evictions : c'.evictions = c.evictions
  fewer : c'.entries.Sublist c.entries
  live : ∀ x ∈ c.entries, x.2.isLive now = true → x ∈ c'.entries

theorem Keeps.refl (now : Nat) (c : GraphStore) : Keeps now c c :=
  ⟨rfl, rfl, rfl, List.Sublist.refl _, fun _ listed _ => listed⟩

theorem Keeps.count {c' : GraphStore} (keeps : Keeps now c c') (j : Judgement) :
    Keeps now c (c'.count j) := by
  cases j <;> exact ⟨keeps.ttl, keeps.capacity, keeps.evictions, keeps.fewer, keeps.live⟩

/-- Only an expired entry is removed as expired. -/
theorem dropExpired_keeps (distinct : (c.entries.map Prod.fst).Nodup) (key : String) :
    Keeps now c (c.dropExpired now key) := by
  unfold dropExpired
  split
  · next e found =>
    by_cases live : e.isLive now = true
    · rw [if_pos live]
      exact .refl now c
    · rw [if_neg live]
      refine ⟨rfl, rfl, rfl, List.filter_sublist, ?_⟩
      intro x listed live'
      refine List.mem_filter.mpr ⟨listed, ?_⟩
      have other : x.1 ≠ key := by
        rintro rfl
        have same := entry_unique distinct ((find?_eq_some_iff distinct).mp found) listed
        exact live (same ▸ live')
      simpa using other
  · exact .refl now c

theorem dropExpired_counts (c : GraphStore) (now : Nat) (key : String) :
    (c.dropExpired now key).hits = c.hits ∧ (c.dropExpired now key).misses = c.misses := by
  unfold dropExpired
  split
  · split <;> exact ⟨rfl, rfl⟩
  · exact ⟨rfl, rfl⟩

theorem get_fst (c : GraphStore) (now : Nat) (owner repo : String) (branch : Option String) :
    (c.get now owner repo branch).1 = match judge (c.find? (keyOf owner repo)) now branch with
      | .hit graph => some graph
      | _ => none := by
  unfold get
  dsimp only
  cases judge (c.find? (keyOf owner repo)) now branch <;> rfl

theorem get_snd (c : GraphStore) (now : Nat) (owner repo : String) (branch : Option String) :
    (c.get now owner repo branch).2 = match judge (c.find? (keyOf owner repo)) now branch with
      | .expired => (c.dropExpired now (keyOf owner repo)).count .expired
      | other => c.count other := by
  unfold get
  dsimp only
  cases judge (c.find? (keyOf owner repo)) now branch <;> rfl

theorem get_keeps (distinct : (c.entries.map Prod.fst).Nodup) :
    Keeps now c (c.get now owner repo branch).2 := by
  rw [get_snd]
  cases judge (c.find? (keyOf owner repo)) now branch with
  | expired => exact (dropExpired_keeps distinct _).count _
  | absent => exact (Keeps.refl now c).count _
  | otherBranch => exact (Keeps.refl now c).count _
  | hit graph => exact (Keeps.refl now c).count _

/-- Each request is a hit or a miss. -/
theorem get_counted (c : GraphStore) (now : Nat) (owner repo : String) (branch : Option String) :
    (c.get now owner repo branch).2.hits + (c.get now owner repo branch).2.misses =
      c.hits + c.misses + 1 := by
  rw [get_snd]
  cases judge (c.find? (keyOf owner repo)) now branch with
  | expired =>
    obtain ⟨hits, misses⟩ := dropExpired_counts c now (keyOf owner repo)
    rw [← hits, ← misses]
    exact (Nat.add_assoc _ _ _).symm
  | absent => exact (Nat.add_assoc _ _ _).symm
  | otherBranch => exact (Nat.add_assoc _ _ _).symm
  | hit graph => exact Nat.add_right_comm _ _ _

/-- What is judged a hit is live and answers for the branch. -/
theorem judge_eq_hit_iff {read : Option StoredGraph} {graph : RepoGraph} :
    judge read now branch = .hit graph ↔
      ∃ e, read = some e ∧ e.isLive now = true ∧ e.answersFor branch = true ∧ e.graph = graph := by
  cases read with
  | none => simp [judge]
  | some e =>
    unfold judge
    by_cases live : e.isLive now = true
    · by_cases answers : e.answersFor branch = true <;> simp [live, answers]
    · simp [live]

/-- A request is answered by the live entry under its name, if that answers for its branch. -/
theorem get_eq_some_iff (distinct : (c.entries.map Prod.fst).Nodup) {graph : RepoGraph} :
    (c.get now owner repo branch).1 = some graph ↔
      ∃ e, (keyOf owner repo, e) ∈ c.entries ∧ e.isLive now = true ∧
        e.answersFor branch = true ∧ e.graph = graph := by
  have answered : (c.get now owner repo branch).1 = some graph ↔
      judge (c.find? (keyOf owner repo)) now branch = .hit graph := by
    rw [get_fst]
    cases judge (c.find? (keyOf owner repo)) now branch <;> simp
  simp only [answered, judge_eq_hit_iff, find?_eq_some_iff distinct]

/-- A request that may build takes what it finds. -/
theorem getElse_of_some {graph : RepoGraph} (found : (c.get now owner repo branch).1 = some graph)
    (build : Unit → Except Fault RepoGraph) (took : Nat) :
    c.getElse now owner repo branch build took = (.ok graph, (c.get now owner repo branch).2) := by
  unfold getElse
  cases read : c.get now owner repo branch with
  | mk answer after =>
    rw [read] at found
    cases found
    rfl

/-- Where it finds nothing, it builds, and keeps what it has built. -/
theorem getElse_of_none (missed : (c.get now owner repo branch).1 = none)
    (build : Unit → Except Fault RepoGraph) (took : Nat) :
    c.getElse now owner repo branch build took =
      match build () with
      | .ok graph => (.ok graph, (c.get now owner repo branch).2.insert (now + took) graph branch)
      | .error e => (.error e, (c.get now owner repo branch).2) := by
  unfold getElse
  cases read : c.get now owner repo branch with
  | mk answer after =>
    rw [read] at missed
    cases missed
    rfl

/-- A request that may build is stopped where it has built a graph that cannot be kept. -/
theorem stopsElse_iff {build : Unit → Except Fault RepoGraph} {took : Nat} :
    c.stopsElse now owner repo branch build took = true ↔
      (c.get now owner repo branch).1 = none ∧ (∃ graph, build () = .ok graph) ∧
        (c.get now owner repo branch).2.stops (now + took) = true := by
  unfold stopsElse
  cases c.get now owner repo branch with
  | mk answer after =>
    cases answer with
    | some graph => simp
    | none => cases build () <;> simp

theorem stops_iff : c.stops now = true ↔ clockEnd ≤ now + c.ttl := by
  simp [stops, expiry?]

end

/-! ### Making room -/

section

variable {c : GraphStore} {now : Nat} {key : String} {e : StoredGraph} {graph : RepoGraph}
  {requested : Option String}

/-- The live entries under other names than the given one. -/
def liveOthers (c : GraphStore) (now : Nat) (key : String) : List (String × StoredGraph) :=
  c.entries.filter fun x => x.2.isLive now && x.1 != key

/-- The live entries under other names that are no longer there after an insertion. -/
def evicted (c : GraphStore) (now : Nat) (graph : RepoGraph) (requested : Option String) :
    List (String × StoredGraph) :=
  (c.liveOthers now graph.key).filter fun x => ((c.insert now graph requested).find? x.1).isNone

theorem mem_liveOthers_iff {x : String × StoredGraph} :
    x ∈ c.liveOthers now key ↔ x ∈ c.entries ∧ x.2.isLive now = true ∧ x.1 ≠ key := by
  simp [liveOthers, List.mem_filter]

theorem others_perm (c : GraphStore) (now : Nat) (key : String) :
    (c.others now key).Perm (c.liveOthers now key) :=
  List.mergeSort_perm _ _

theorem others_distinct (distinct : (c.entries.map Prod.fst).Nodup) :
    ((c.others now key).map Prod.fst).Nodup :=
  ((others_perm c now key).map _).nodup_iff.mpr
    (distinct.sublist (List.filter_sublist.map Prod.fst))

/-- The entries that give way first stand in front. -/
theorem others_sorted (c : GraphStore) (now : Nat) (key : String) :
    (c.others now key).Pairwise fun x y => x.2.expiresAt < y.2.expiresAt ∨
      x.2.expiresAt = y.2.expiresAt ∧ x.1 ≤ y.1 := by
  have goes : Text.GoesBy (fun x : String × StoredGraph => x.2.expiresAt)
      (Text.textBefore Prod.fst) givesWayBefore := fun _ _ => rfl
  have sorted := goes.sorted (Text.textBefore_trans Prod.fst) (Text.textBefore_total Prod.fst)
    (c.entries.filter fun x => x.2.isLive now && x.1 != key)
  refine sorted.imp ?_
  rintro x y (less | ⟨same, names⟩)
  · exact .inl less
  · exact .inr ⟨same, of_decide_eq_true names⟩

theorem mem_outgoing {x : String × StoredGraph} (gone : x ∈ c.outgoing now key) :
    x ∈ c.liveOthers now key :=
  (others_perm c now key).mem_iff.mp (List.mem_of_mem_take gone)

theorem outgoing_nodup (distinct : (c.entries.map Prod.fst).Nodup) (now : Nat) (key : String) :
    (c.outgoing now key).Nodup := by
  have once : (c.others now key).Nodup := .of_map Prod.fst (others_distinct distinct)
  exact once.sublist (List.take_sublist _ _)

theorem length_outgoing (c : GraphStore) (now : Nat) (key : String) :
    (c.outgoing now key).length = c.excess (c.others now key).length := by
  rw [outgoing, List.length_take, min_eq_left]
  exact Nat.min_le_right _ _

/-- What stays when room is made is live and has not to go. -/
theorem mem_makeRoom_iff {x : String × StoredGraph} :
    x ∈ (c.makeRoom now key).entries ↔
      x ∈ c.entries ∧ x.2.isLive now = true ∧ ∀ y ∈ c.outgoing now key, y.1 ≠ x.1 := by
  simp [makeRoom, List.mem_filter]

/-- With distinct names an entry has to go if one of its name has to. -/
theorem forall_outgoing_ne_iff (distinct : (c.entries.map Prod.fst).Nodup)
    {x : String × StoredGraph} (listed : x ∈ c.entries) :
    (∀ y ∈ c.outgoing now key, y.1 ≠ x.1) ↔ x ∉ c.outgoing now key := by
  constructor
  · exact fun stays gone => stays x gone rfl
  · intro stays y gone same
    have listed' := (mem_liveOthers_iff.mp (mem_outgoing gone)).1
    exact stays (List.inj_on_of_nodup_map distinct listed' listed same ▸ gone)

theorem mem_makeRoom_others_iff (distinct : (c.entries.map Prod.fst).Nodup)
    {x : String × StoredGraph} :
    x ∈ ((c.makeRoom now key).erase key).entries ↔
      x ∈ c.liveOthers now key ∧ x ∉ c.outgoing now key := by
  rw [erase, List.mem_filter, mem_makeRoom_iff, mem_liveOthers_iff, bne_iff_ne]
  constructor
  · rintro ⟨⟨listed, live, stays⟩, other⟩
    exact ⟨⟨listed, live, other⟩, (forall_outgoing_ne_iff distinct listed).mp stays⟩
  · rintro ⟨⟨listed, live, other⟩, stays⟩
    exact ⟨⟨listed, live, (forall_outgoing_ne_iff distinct listed).mpr stays⟩, other⟩

/-- What stays under other names and what has to make room are all the live entries under other
names. -/
theorem makeRoom_others_perm (distinct : (c.entries.map Prod.fst).Nodup) (now : Nat)
    (key : String) :
    (((c.makeRoom now key).erase key).entries ++ c.outgoing now key).Perm
      (c.liveOthers now key) := by
  have once : c.entries.Nodup := .of_map Prod.fst distinct
  refine (List.perm_ext_iff_of_nodup ?_ (once.sublist List.filter_sublist)).mpr ?_
  · refine List.nodup_append'.mpr ⟨?_, outgoing_nodup distinct now key, ?_⟩
    · exact once.sublist (List.filter_sublist.trans List.filter_sublist)
    · exact fun x stay => ((mem_makeRoom_others_iff distinct).mp stay).2
  · intro x
    rw [List.mem_append, mem_makeRoom_others_iff distinct]
    constructor
    · rintro (⟨live, -⟩ | gone)
      · exact live
      · exact mem_outgoing gone
    · intro live
      by_cases gone : x ∈ c.outgoing now key
      · exact .inr gone
      · exact .inl ⟨live, gone⟩

/-! ### Insertions -/

/-- Under its name there is the entry that was put there, under others what was there. -/
theorem mem_put_iff {x : String × StoredGraph} :
    x ∈ (c.put key e).entries ↔ x ∈ c.entries ∧ x.1 ≠ key ∨ x = (key, e) := by
  simp [put, erase, List.mem_filter]

/-- An insertion puts the graph there, if the clock reaches the end of its time. -/
theorem insert_of_reached {moment : Nat} (reached : c.expiry? now = some moment) :
    c.insert now graph requested =
      (c.makeRoom now graph.key).put graph.key ⟨graph, requested, now + c.ttl⟩ := by
  have same : now + c.ttl = moment := by
    rw [expiry?, Option.ite_none_right_eq_some] at reached
    exact Option.some.inj reached.2
  have reached' : (c.makeRoom now graph.key).expiry? now = some moment := reached
  simp only [insert, reached', same]

/-- Else it only makes room. -/
theorem insert_of_unreached (unreached : c.expiry? now = none) :
    c.insert now graph requested = c.makeRoom now graph.key := by
  have unreached' : (c.makeRoom now graph.key).expiry? now = none := unreached
  simp only [insert, unreached']

/-- Nothing but the entries and the number of those that had to make room is different after an
insertion. -/
theorem insert_eq (c : GraphStore) (now : Nat) (graph : RepoGraph) (requested : Option String) :
    c.insert now graph requested =
      { c with
        entries := (c.insert now graph requested).entries
        evictions := c.evictions + (c.outgoing now graph.key).length } := by
  cases reached : c.expiry? now with
  | some moment =>
    rw [insert_of_reached reached]
    rfl
  | none =>
    rw [insert_of_unreached reached]
    rfl

/-- The graph that was inserted is the entry under its name. -/
theorem mem_insert_self {moment : Nat} (reached : c.expiry? now = some moment) :
    (graph.key, e) ∈ (c.insert now graph requested).entries ↔
      e = ⟨graph, requested, now + c.ttl⟩ := by
  rw [insert_of_reached reached, mem_put_iff]
  simp

/-- Nothing but the graph that was inserted is there that was not there before. -/
theorem mem_of_mem_insert {x : String × StoredGraph}
    (listed : x ∈ (c.insert now graph requested).entries) :
    x ∈ c.entries ∨ x = (graph.key, ⟨graph, requested, now + c.ttl⟩) := by
  cases reached : c.expiry? now with
  | some moment =>
    rw [insert_of_reached reached, mem_put_iff] at listed
    exact listed.imp_left fun stays => (mem_makeRoom_iff.mp stays.1).1
  | none =>
    rw [insert_of_unreached reached] at listed
    exact .inl (mem_makeRoom_iff.mp listed).1

/-- An insertion leaves what stays when room is made, but for an entry whose place it takes. -/
theorem mem_insert_iff_makeRoom (old : key ≠ graph.key ∨ c.expiry? now = none) :
    (key, e) ∈ (c.insert now graph requested).entries ↔
      (key, e) ∈ (c.makeRoom now graph.key).entries := by
  cases reached : c.expiry? now with
  | none => rw [insert_of_unreached reached]
  | some moment =>
    have other : key ≠ graph.key := by
      refine old.resolve_right ?_
      rw [reached]
      exact Option.some_ne_none moment
    rw [insert_of_reached reached, mem_put_iff]
    simp [other]

/-- Of live entries under other names, those that are not found after an insertion are those that
have to make room. -/
theorem isNone_find?_insert_iff (distinct : (c.entries.map Prod.fst).Nodup)
    {x : String × StoredGraph} (live : x ∈ c.liveOthers now graph.key) :
    ((c.insert now graph requested).find? x.1).isNone = true ↔ x ∈ c.outgoing now graph.key := by
  obtain ⟨listed, alive, other⟩ := mem_liveOthers_iff.mp live
  have found : (∃ e, (x.1, e) ∈ (c.insert now graph requested).entries) ↔
      ∀ y ∈ c.outgoing now graph.key, y.1 ≠ x.1 := by
    simp only [mem_insert_iff_makeRoom (.inl other), mem_makeRoom_iff]
    exact ⟨fun ⟨_, _, _, stays⟩ => stays, fun stays => ⟨x.2, listed, alive, stays⟩⟩
  have names : x.1 ∈ (c.insert now graph requested).entries.map Prod.fst ↔
      ∃ e, (x.1, e) ∈ (c.insert now graph requested).entries := by
    simp
  rw [← Bool.not_eq_false, Option.isNone_eq_false_iff, isSome_find?_iff, names, found,
    forall_outgoing_ne_iff distinct listed, not_not]

/-- The live entries that are gone after an insertion are those that have to make room. -/
theorem mem_evicted_iff (distinct : (c.entries.map Prod.fst).Nodup) {x : String × StoredGraph} :
    x ∈ c.evicted now graph requested ↔ x ∈ c.outgoing now graph.key := by
  rw [evicted, List.mem_filter]
  constructor
  · rintro ⟨live, missed⟩
    exact (isNone_find?_insert_iff distinct live).mp missed
  · intro gone
    have live := mem_outgoing gone
    exact ⟨live, (isNone_find?_insert_iff distinct live).mpr gone⟩

theorem evicted_perm (distinct : (c.entries.map Prod.fst).Nodup) :
    (c.evicted now graph requested).Perm (c.outgoing now graph.key) := by
  have once : c.entries.Nodup := .of_map Prod.fst distinct
  have once' : (c.evicted now graph requested).Nodup :=
    once.sublist (List.filter_sublist.trans List.filter_sublist)
  exact (List.perm_ext_iff_of_nodup once' (outgoing_nodup distinct now graph.key)).mpr
    fun x => mem_evicted_iff distinct

/-- Under a name at which nothing was put there is what was live and did not have to go. -/
theorem mem_insert_iff (distinct : (c.entries.map Prod.fst).Nodup)
    (old : key ≠ graph.key ∨ c.expiry? now = none) :
    (key, e) ∈ (c.insert now graph requested).entries ↔
      (key, e) ∈ c.entries ∧ e.isLive now = true ∧
        key ∉ (c.evicted now graph requested).map Prod.fst := by
  rw [mem_insert_iff_makeRoom old, mem_makeRoom_iff]
  simp only [List.mem_map, mem_evicted_iff distinct, not_exists, not_and]

theorem Sound.makeRoom (sound : c.Sound) (now : Nat) (key : String) :
    (c.makeRoom now key).Sound :=
  sound.sublist rfl List.filter_sublist

/-- An entry can be put under its name where the others leave room for it. -/
theorem Sound.put (sound : c.Sound) (own : key = e.graph.key)
    (room : (c.erase key).entries.length < c.capacity) : (c.put key e).Sound where
  room := sound.room
  bounded := by
    rw [GraphStore.put, List.length_append, List.length_singleton]
    exact room
  distinct := by
    rw [GraphStore.put, List.map_append, List.nodup_append']
    refine ⟨?_, List.nodup_singleton _, ?_⟩
    · exact sound.distinct.sublist (List.filter_sublist.map Prod.fst)
    · intro name old new
      obtain ⟨x, listed, rfl⟩ := List.mem_map.mp old
      rw [List.map_singleton, List.mem_singleton] at new
      simpa [new] using (List.mem_filter.mp listed).2
  own := by
    intro x listed
    rcases mem_put_iff.mp listed with old | rfl
    · exact sound.own x old.1
    · exact own

theorem Sound.insert (sound : c.Sound) : (c.insert now graph requested).Sound := by
  have made := sound.makeRoom now graph.key
  cases reached : c.expiry? now with
  | none =>
    rw [insert_of_unreached reached]
    exact made
  | some moment =>
    rw [insert_of_reached reached]
    refine made.put rfl ?_
    have room := sound.room
    have all := (makeRoom_others_perm sound.distinct now graph.key).length_eq
    rw [List.length_append, length_outgoing, (others_perm c now graph.key).length_eq, excess] at all
    change _ < c.capacity
    omega

/-- Beside an entry under the name the others do not fill the cache. -/
theorem Sound.length_liveOthers_lt (sound : c.Sound) (listed : (key, e) ∈ c.entries) :
    (c.liveOthers now key).length < c.capacity := by
  refine lt_of_lt_of_le ?_ sound.bounded
  rw [liveOthers, List.length_filter_lt_length_iff_exists]
  exact ⟨(key, e), listed, by simp⟩

/-- One entry has to go at most, and only when the others fill the cache. -/
theorem Sound.excess_eq (sound : c.Sound) :
    c.excess (c.others now key).length =
      if (c.liveOthers now key).length = c.capacity then 1 else 0 := by
  have bounded : (c.liveOthers now key).length ≤ c.capacity :=
    (List.length_filter_le _ _).trans sound.bounded
  have room := sound.room
  rw [(others_perm c now key).length_eq, excess]
  split_ifs with full <;> omega

/-- What an insertion does to the live entries under other names. -/
structure MakesRoom (c : GraphStore) (now : Nat) (graph : RepoGraph) (requested : Option String) :
    Prop where
  /-- At most one has to go. -/
  atMostOne : (c.evicted now graph requested).length ≤ 1
  /-- One has to go only when they fill the cache. -/
  full : c.evicted now graph requested ≠ [] ↔ (c.liveOthers now graph.key).length = c.capacity
  /-- It is the one that expires first, of several the one with the smallest name. -/
  first : ∀ x ∈ c.evicted now graph requested, ∀ y ∈ c.liveOthers now graph.key,
    x.2.expiresAt < y.2.expiresAt ∨ x.2.expiresAt = y.2.expiresAt ∧ x.1 ≤ y.1
  /-- None has to go where an entry, live or not, is replaced. -/
  replaced : ∀ e, (graph.key, e) ∈ c.entries → c.evicted now graph requested = []
  /-- The others stay as they are. -/
  kept : ∀ x ∈ c.liveOthers now graph.key, x ∉ c.evicted now graph requested →
    x ∈ (c.insert now graph requested).entries
  counted : (c.insert now graph requested).evictions =
    c.evictions + (c.evicted now graph requested).length

/-- What stands in a list of one item at most, cut off the front of a sorted list, comes first. -/
theorem first_of_sorted {α : Type} {r : α → α → Prop} (refl : ∀ a, r a a) {items : List α}
    (sorted : items.Pairwise r) {k : Nat} (few : k ≤ 1) {a b : α} (front : a ∈ items.take k)
    (listed : b ∈ items) : r a b := by
  cases items with
  | nil => exact absurd listed List.not_mem_nil
  | cons first rest =>
    have same : a = first := by
      interval_cases k
      · exact absurd front List.not_mem_nil
      · exact List.mem_singleton.mp front
    rw [same]
    rcases List.mem_cons.mp listed with rfl | later
    · exact refl b
    · exact List.rel_of_pairwise_cons sorted later

theorem Sound.makesRoom (sound : c.Sound) (now : Nat) (graph : RepoGraph)
    (requested : Option String) : c.MakesRoom now graph requested := by
  have perm : (c.evicted now graph requested).Perm (c.outgoing now graph.key) :=
    evicted_perm sound.distinct
  have length : (c.evicted now graph requested).length =
      c.excess (c.others now graph.key).length := by
    rw [perm.length_eq, length_outgoing]
  refine ⟨?_, ?_, ?_, ?_, ?_, ?_⟩
  · rw [length, sound.excess_eq]
    split_ifs <;> decide
  · rw [← List.length_pos_iff, length, sound.excess_eq]
    split_ifs with full
    · exact iff_of_true Nat.one_pos full
    · exact iff_of_false (Nat.lt_irrefl 0) full
  · intro x gone y live
    refine first_of_sorted (fun z => .inr ⟨rfl, String.le_refl z.1⟩) (others_sorted c now graph.key)
      ?_ (perm.mem_iff.mp gone) ((others_perm c now graph.key).mem_iff.mpr live)
    rw [sound.excess_eq]
    split_ifs <;> decide
  · intro e listed
    have room : (c.liveOthers now graph.key).length < c.capacity :=
      sound.length_liveOthers_lt listed
    rw [← List.length_eq_zero_iff, length, sound.excess_eq, if_neg room.ne]
  · rintro ⟨key, e⟩ live stays
    obtain ⟨listed, live', other⟩ := mem_liveOthers_iff.mp live
    refine (mem_insert_iff sound.distinct (.inl other)).mpr ⟨listed, live', ?_⟩
    intro gone
    obtain ⟨⟨name, e'⟩, inEvicted, rfl⟩ := List.mem_map.mp gone
    have listed' := (mem_liveOthers_iff.mp (List.mem_filter.mp inEvicted).1).1
    rw [entry_unique sound.distinct listed listed'] at stays
    exact stays inEvicted
  · rw [insert_eq, perm.length_eq]

end

end CodeAtlas.GraphStore
