import CodeAtlas.Proofs.Repository.Store

/-!
# What a cache answers after any history

A cache is used for any time, by any number of operations. At each moment what it holds and what it
answers is told by what has happened under the name in question last: a graph answers requests that
it serves from its insertion until its time is over, or another graph is inserted under its name, or
it is invalidated or has to make room. Where the time of a graph would not be over before the end of
the clock, its insertion is stopped: it makes room, but the graph is not kept and answers nothing.
-/

namespace CodeAtlas.GraphStore

/-! ### Operations -/

/-- A cache with the time on its clock. -/
structure Timed where
  now : Nat
  store : GraphStore

/-- What is done with a cache. A build is given by its outcome and the time it takes. -/
inductive Operation where
  | insert (graph : RepoGraph) (requested : Option String)
  | get (owner repo : String) (branch : Option String)
  | getElse (owner repo : String) (branch : Option String) (built : Except Fault RepoGraph)
      (took : Nat)
  | invalidate (owner repo : String)
  | wait (time : Nat)

/-- Whether an operation looks a graph up. -/
def Operation.looksUp : Operation → Bool
  | get .. | getElse .. => true
  | _ => false

/-- The time that goes by in an operation. A build takes time only where it is needed. -/
def Timed.lapse (s : Timed) : Operation → Nat
  | .getElse owner repo branch _ took =>
    match (s.store.get s.now owner repo branch).1 with
    | some _ => 0
    | none => took
  | .wait time => time
  | _ => 0

/-- The cache after an operation. -/
def Timed.storeAfter (s : Timed) : Operation → GraphStore
  | .insert graph requested => s.store.insert s.now graph requested
  | .get owner repo branch => (s.store.get s.now owner repo branch).2
  | .getElse owner repo branch built took =>
    (s.store.getElse s.now owner repo branch (fun _ => built) took).2
  | .invalidate owner repo => (s.store.invalidate owner repo).2
  | .wait _ => s.store

/-- Whether an operation is stopped, and with it whoever is about it. -/
def Timed.stopped (s : Timed) : Operation → Bool
  | .insert .. => s.store.stops s.now
  | .getElse owner repo branch built took =>
    s.store.stopsElse s.now owner repo branch (fun _ => built) took
  | _ => false

/-- A cache and its clock after an operation. -/
def Timed.perform (s : Timed) (op : Operation) : Timed :=
  ⟨s.now + s.lapse op, s.storeAfter op⟩

/-- A cache and its clock after operations. -/
def Timed.run (s : Timed) (ops : List Operation) : Timed :=
  ops.foldl Timed.perform s

/-- No operation is stopped whose graph would be live for no longer than the clock goes. -/
theorem Sound.le_of_stopped {s : Timed} (sound : s.store.Sound) {op : Operation}
    (stopped : s.stopped op = true) : clockEnd ≤ s.now + s.lapse op + s.store.ttl := by
  cases op with
  | insert graph requested => exact stops_iff.mp stopped
  | getElse owner repo branch built took =>
    rw [Timed.stopped] at stopped
    obtain ⟨missed, -, late⟩ := stopsElse_iff.mp stopped
    rw [stops_iff, (get_keeps sound.distinct).ttl] at late
    simpa only [Timed.lapse, missed] using late
  | get => cases stopped
  | invalidate => cases stopped
  | wait => cases stopped

/-! ### Events -/

/-- What happens to the graph under a name. -/
inductive Event where
  | inserted (graph : RepoGraph) (requested : Option String) (moment : Nat)
  | evicted (key : String)
  | invalidated (key : String)

/-- The name under which something happens. -/
def Event.key : Event → String
  | inserted graph _ _ => graph.key
  | evicted key => key
  | invalidated key => key

/-- Whether a graph had to make room. -/
def Event.isEviction : Event → Bool
  | evicted _ => true
  | _ => false

/-- The events of an insertion: some live entries under other names are gone after it, and unless it
is stopped the graph is there. -/
def insertion (c : GraphStore) (now : Nat) (graph : RepoGraph) (requested : Option String) :
    List Event :=
  (c.evicted now graph requested).map (fun x => .evicted x.1) ++
    if c.stops now then [] else [.inserted graph requested now]

/-- The events of an operation. Where a build is needed and succeeds, its graph is inserted. -/
def Timed.events (s : Timed) : Operation → List Event
  | .insert graph requested => s.store.insertion s.now graph requested
  | .getElse owner repo branch built took =>
    match (s.store.get s.now owner repo branch).1, built with
    | none, .ok graph =>
      (s.store.get s.now owner repo branch).2.insertion (s.now + took) graph branch
    | _, _ => []
  | .invalidate owner repo => [.invalidated (keyOf owner repo)]
  | .get .. | .wait _ => []

/-- The events of a run, in order. -/
def Timed.history : Timed → List Operation → List Event
  | _, [] => []
  | s, op :: ops => s.events op ++ (s.perform op).history ops

/-- What has happened last under a name. -/
def latest? (h : List Event) (key : String) : Option Event :=
  (h.filter (·.key == key)).getLast?

section

variable {h h' : List Event} {key : String}

/-- What happens under other names changes nothing. -/
theorem latest?_append_of_ne (others : ∀ event ∈ h', event.key ≠ key) :
    latest? (h ++ h') key = latest? h key := by
  have none : h'.filter (·.key == key) = [] := by
    rw [List.filter_eq_nil_iff]
    intro event listed
    simpa using others event listed
  rw [latest?, List.filter_append, none, List.append_nil, latest?]

theorem latest?_append_singleton (h : List Event) (event : Event) :
    latest? (h ++ [event]) event.key = some event := by
  simp [latest?, List.filter_append]

/-- What happens now under a name is the last that has happened under it. -/
theorem latest?_append_of_mem (event : Event) (listed : event ∈ h') (same : event.key = key) :
    ∃ event ∈ h', latest? (h ++ h') key = some event := by
  have found : h'.filter (·.key == key) ≠ [] :=
    List.ne_nil_of_mem (List.mem_filter.mpr ⟨listed, by simpa using same⟩)
  obtain ⟨last, isLast⟩ : ∃ last, (h'.filter (·.key == key)).getLast? = some last :=
    ⟨_, List.getLast?_eq_getLast_of_ne_nil found⟩
  refine ⟨last, (List.mem_filter.mp (List.mem_of_getLast? isLast)).1, ?_⟩
  rw [latest?, List.filter_append, List.getLast?_append, isLast, Option.some_or]

/-- A graph is kept exactly where the insertion is not stopped. -/
theorem insertion_of_reached {c : GraphStore} {now moment : Nat}
    (reached : c.expiry? now = some moment) (graph : RepoGraph) (requested : Option String) :
    c.insertion now graph requested =
      (c.evicted now graph requested).map (fun x => .evicted x.1) ++
        [.inserted graph requested now] := by
  have goesOn : c.stops now = false := by
    rw [stops, reached]
    rfl
  rw [insertion, goesOn]
  rfl

theorem countP_insertion (c : GraphStore) (now : Nat) (graph : RepoGraph)
    (requested : Option String) :
    (c.insertion now graph requested).countP Event.isEviction =
      (c.evicted now graph requested).length := by
  have evictions : ((c.evicted now graph requested).map fun x => Event.evicted x.1).countP
      Event.isEviction = (c.evicted now graph requested).length := by
    rw [List.countP_map]
    exact List.countP_eq_length.mpr fun _ _ => rfl
  rw [insertion, List.countP_append, evictions]
  cases c.stops now <;> rfl

/-- After an insertion that is not stopped the graph is what happened last under its name. -/
theorem latest?_insertion_self {c : GraphStore} {now moment : Nat}
    (reached : c.expiry? now = some moment) (graph : RepoGraph) (requested : Option String) :
    latest? (h ++ c.insertion now graph requested) graph.key =
      some (.inserted graph requested now) := by
  rw [insertion_of_reached reached, ← List.append_assoc]
  exact latest?_append_singleton _ (.inserted graph requested now)

/-- What an insertion puts there has the name of its graph. -/
theorem ne_of_mem_inserted {c : GraphStore} {now : Nat} {graph : RepoGraph}
    {requested : Option String} (old : key ≠ graph.key ∨ c.expiry? now = none) :
    ∀ event ∈ (if c.stops now then [] else [Event.inserted graph requested now]),
      event.key ≠ key := by
  intro event listed
  cases stopped : c.stops now with
  | true => simp [stopped] at listed
  | false =>
    have other : key ≠ graph.key := by
      refine old.resolve_right ?_
      rw [stops, Option.isNone_eq_false_iff] at stopped
      exact Option.isSome_iff_ne_none.mp stopped
    obtain rfl : event = .inserted graph requested now := by simpa [stopped] using listed
    exact other.symm

/-- An insertion is an event under a name at which it puts nothing only where an entry has to make
room. -/
theorem latest?_insertion_of_old (c : GraphStore) (now : Nat) (graph : RepoGraph)
    (requested : Option String) (old : key ≠ graph.key ∨ c.expiry? now = none)
    (stays : key ∉ (c.evicted now graph requested).map Prod.fst) :
    latest? (h ++ c.insertion now graph requested) key = latest? h key := by
  apply latest?_append_of_ne
  intro event listed
  rcases List.mem_append.mp listed with gone | last
  · obtain ⟨x, inEvicted, rfl⟩ := List.mem_map.mp gone
    rintro rfl
    exact stays (List.mem_map_of_mem inEvicted)
  · exact ne_of_mem_inserted old event last

theorem latest?_insertion_evicted (c : GraphStore) (now : Nat) (graph : RepoGraph)
    (requested : Option String) (old : key ≠ graph.key ∨ c.expiry? now = none)
    (gone : key ∈ (c.evicted now graph requested).map Prod.fst) :
    ∃ name, latest? (h ++ c.insertion now graph requested) key = some (.evicted name) := by
  obtain ⟨x, inEvicted, rfl⟩ := List.mem_map.mp gone
  rw [insertion, ← List.append_assoc, latest?_append_of_ne (ne_of_mem_inserted old)]
  obtain ⟨event, listed, last⟩ := latest?_append_of_mem (h := h) (.evicted x.1)
    (List.mem_map_of_mem (f := fun x : String × StoredGraph => Event.evicted x.1) inEvicted) rfl
  obtain ⟨y, -, rfl⟩ := List.mem_map.mp listed
  exact ⟨y.1, last⟩

end

/-! ### One operation -/

/-- What is known of a cache by its settings, by what has happened under each name and by how often
a graph was looked up. -/
structure Remembers (settings : CacheSettings) (now : Nat) (c : GraphStore) (h : List Event)
    (lookups : Nat) : Prop where
  sound : c.Sound
  ttl : c.ttl = settings.ttlSecs * 1000
  capacity : c.capacity = max settings.capacity 1
  agrees : ∀ key e, e.isLive now = true → ((key, e) ∈ c.entries ↔
    ∃ moment, latest? h key = some (.inserted e.graph e.requestedBranch moment) ∧
      e.expiresAt = moment + c.ttl)
  counted : c.hits + c.misses = lookups
  evictions : c.evictions = h.countP Event.isEviction

section

variable {settings : CacheSettings} {now : Nat} {c : GraphStore} {h : List Event} {lookups : Nat}

theorem remembers_empty (settings : CacheSettings) (now : Nat) :
    Remembers settings now (empty settings) [] 0 where
  sound := sound_empty settings
  ttl := rfl
  capacity := rfl
  agrees := by
    intro key e _
    refine iff_of_false List.not_mem_nil ?_
    rintro ⟨moment, last, -⟩
    cases last
  counted := rfl
  evictions := rfl

/-- When time goes by, nothing becomes live again. -/
theorem Remembers.wait (known : Remembers settings now c h lookups) (time : Nat) :
    Remembers settings (now + time) c h lookups where
  sound := known.sound
  ttl := known.ttl
  capacity := known.capacity
  agrees := by
    intro key e live
    apply known.agrees
    rw [StoredGraph.isLive, decide_eq_true_eq] at live ⊢
    omega
  counted := known.counted
  evictions := known.evictions

theorem Remembers.get (known : Remembers settings now c h lookups) (owner repo : String)
    (branch : Option String) :
    Remembers settings now (c.get now owner repo branch).2 h (lookups + 1) := by
  have keeps : Keeps now c (c.get now owner repo branch).2 := get_keeps known.sound.distinct
  constructor
  · exact known.sound.sublist keeps.capacity keeps.fewer
  · exact keeps.ttl.trans known.ttl
  · exact keeps.capacity.trans known.capacity
  · intro key e live
    rw [keeps.ttl, ← known.agrees key e live]
    exact ⟨fun listed => keeps.fewer.subset listed, fun listed => keeps.live _ listed live⟩
  · rw [get_counted, known.counted]
  · exact keeps.evictions.trans known.evictions

/-- A graph that is put there is told by its insertion. -/
theorem mem_insert_self_iff_inserted {moment : Nat} (reached : c.expiry? now = some moment)
    (h : List Event) (graph : RepoGraph) (requested : Option String) (e : StoredGraph) :
    (graph.key, e) ∈ (c.insert now graph requested).entries ↔
      ∃ moment, latest? (h ++ c.insertion now graph requested) graph.key =
          some (.inserted e.graph e.requestedBranch moment) ∧ e.expiresAt = moment + c.ttl := by
  rw [mem_insert_self reached, latest?_insertion_self reached]
  constructor
  · rintro rfl
    exact ⟨now, rfl, rfl⟩
  · rintro ⟨moment, last, expires⟩
    obtain ⟨rfl, rfl, rfl⟩ := Event.inserted.inj (Option.some.inj last)
    exact congrArg (StoredGraph.mk e.graph e.requestedBranch) expires

/-- Where an insertion puts nothing, a live entry is told as before, unless it had to make room. -/
theorem Remembers.mem_insert_iff_inserted (known : Remembers settings now c h lookups)
    (graph : RepoGraph) (requested : Option String) {key : String}
    (old : key ≠ graph.key ∨ c.expiry? now = none) {e : StoredGraph} (live : e.isLive now = true) :
    (key, e) ∈ (c.insert now graph requested).entries ↔
      ∃ moment, latest? (h ++ c.insertion now graph requested) key =
          some (.inserted e.graph e.requestedBranch moment) ∧ e.expiresAt = moment + c.ttl := by
  rw [mem_insert_iff known.sound.distinct old]
  by_cases gone : key ∈ (c.evicted now graph requested).map Prod.fst
  · obtain ⟨name, last⟩ := latest?_insertion_evicted (h := h) c now graph requested old gone
    refine iff_of_false (fun kept => kept.2.2 gone) ?_
    rintro ⟨moment, last', -⟩
    rw [last] at last'
    cases last'
  · rw [latest?_insertion_of_old c now graph requested old gone]
    refine Iff.trans ?_ (known.agrees key e live)
    exact ⟨fun kept => kept.1, fun listed => ⟨listed, live, gone⟩⟩

theorem Remembers.insert (known : Remembers settings now c h lookups) (graph : RepoGraph)
    (requested : Option String) :
    Remembers settings now (c.insert now graph requested) (h ++ c.insertion now graph requested)
      lookups := by
  have same := insert_eq c now graph requested
  have ttl := congrArg GraphStore.ttl same
  constructor
  · exact known.sound.insert
  · exact ttl.trans known.ttl
  · exact (congrArg GraphStore.capacity same).trans known.capacity
  · intro key e live
    rw [ttl]
    by_cases old : key ≠ graph.key ∨ c.expiry? now = none
    · exact known.mem_insert_iff_inserted graph requested old live
    · obtain ⟨rfl, moment, reached⟩ : key = graph.key ∧ ∃ moment, c.expiry? now = some moment := by
        simpa [Option.ne_none_iff_exists'] using old
      exact mem_insert_self_iff_inserted reached h graph requested e
  · have hits := congrArg GraphStore.hits same
    have misses := congrArg GraphStore.misses same
    rw [hits, misses]
    exact known.counted
  · rw [(known.sound.makesRoom now graph requested).counted, known.evictions, List.countP_append,
      countP_insertion]

theorem Remembers.invalidate (known : Remembers settings now c h lookups) (owner repo : String) :
    Remembers settings now (c.invalidate owner repo).2 (h ++ [.invalidated (keyOf owner repo)])
      lookups := by
  constructor
  · exact known.sound.sublist rfl List.filter_sublist
  · exact known.ttl
  · exact known.capacity
  · intro key e live
    have listed : (key, e) ∈ (c.invalidate owner repo).2.entries ↔
        (key, e) ∈ c.entries ∧ key ≠ keyOf owner repo := by
      show (key, e) ∈ c.entries.filter _ ↔ _
      simp [List.mem_filter]
    rw [listed]
    by_cases same : key = keyOf owner repo
    · refine iff_of_false (fun kept => kept.2 same) ?_
      rintro ⟨moment, last, -⟩
      have last' : latest? (h ++ [.invalidated (keyOf owner repo)]) (keyOf owner repo) = some _ :=
        latest?_append_singleton h (.invalidated (keyOf owner repo))
      rw [same, last'] at last
      cases last
    · have others : ∀ event ∈ [Event.invalidated (keyOf owner repo)], event.key ≠ key := by
        intro event last
        rw [List.mem_singleton.mp last]
        exact Ne.symm same
      rw [latest?_append_of_ne others]
      refine Iff.trans ?_ (known.agrees key e live)
      exact ⟨fun kept => kept.1, fun listed => ⟨listed, same⟩⟩
  · exact known.counted
  · rw [List.countP_append]
    exact known.evictions

/-- A build that is needed happens between two accesses to the cache. -/
theorem Remembers.getElse (known : Remembers settings now c h lookups) (owner repo : String)
    (branch : Option String) (built : Except Fault RepoGraph) (took : Nat) :
    Remembers settings (now + (Timed.mk now c).lapse (.getElse owner repo branch built took))
      (c.getElse now owner repo branch (fun _ => built) took).2
      (h ++ (Timed.mk now c).events (.getElse owner repo branch built took)) (lookups + 1) := by
  have looked := known.get owner repo branch
  unfold Timed.lapse Timed.events
  cases found : (c.get now owner repo branch).1 with
  | some graph =>
    rw [getElse_of_some found]
    simpa only [found, List.append_nil, Nat.add_zero] using looked
  | none =>
    rw [getElse_of_none found]
    cases built with
    | ok graph => simpa only [found] using (looked.wait took).insert graph branch
    | error e => simpa only [found, List.append_nil] using looked.wait took

/-- Every operation keeps to what is known, with its events and the look-up that it may be. -/
theorem Remembers.perform {s : Timed} (known : Remembers settings s.now s.store h lookups)
    (op : Operation) :
    Remembers settings (s.perform op).now (s.perform op).store (h ++ s.events op)
      (lookups + if op.looksUp then 1 else 0) := by
  cases op with
  | insert graph requested => exact known.insert graph requested
  | get owner repo branch =>
    rw [show s.events (.get owner repo branch) = [] from rfl, List.append_nil]
    exact known.get owner repo branch
  | getElse owner repo branch built took => exact known.getElse owner repo branch built took
  | invalidate owner repo => exact known.invalidate owner repo
  | wait time =>
    rw [show s.events (.wait time) = [] from rfl, List.append_nil]
    exact known.wait time

/-- So does every run. -/
theorem Remembers.run {s : Timed} (known : Remembers settings s.now s.store h lookups)
    (ops : List Operation) :
    Remembers settings (s.run ops).now (s.run ops).store (h ++ s.history ops)
      (lookups + ops.countP Operation.looksUp) := by
  induction ops generalizing s h lookups with
  | nil =>
    rw [Timed.history, List.append_nil]
    exact known
  | cons op ops ih =>
    have rest := ih (known.perform op)
    rw [List.append_assoc, Nat.add_assoc] at rest
    rw [List.countP_cons, Nat.add_comm (ops.countP _)]
    exact rest

end

/-! ### Runs -/

/-- Whether a graph answers requests for a branch; that of the default branch was built by a request
that named none. -/
def Serves (graph : RepoGraph) (requested : Option String) : Option String → Prop
  | none => requested = none
  | some branch => graph.branch = branch

theorem answersFor_iff (e : StoredGraph) (branch : Option String) :
    e.answersFor branch = true ↔ Serves e.graph e.requestedBranch branch := by
  cases branch with
  | none => exact Option.isNone_iff_eq_none
  | some branch => exact beq_iff_eq

/-- What holds of a cache at a moment, by its settings, by what has happened under each name and by
how often a graph was looked up. -/
structure Faithful (settings : CacheSettings) (s : Timed) (h : List Event) (lookups : Nat) :
    Prop where
  bounded : s.store.entries.length ≤ max settings.capacity 1
  /-- There is one entry at most under each name. -/
  distinct : (s.store.entries.map Prod.fst).Nodup
  /-- The name of an entry is that of its graph's repository. -/
  own : ∀ x ∈ s.store.entries, x.1 = keyOf x.2.graph.owner x.2.graph.name
  /-- Whatever is inserted next, it makes room as it should. -/
  room : ∀ graph requested, s.store.MakesRoom s.now graph requested
  /-- A request is answered by the graph inserted last under its name, as long as its time is not
  over, nothing else has happened under the name, and it serves the branch; and by no other. -/
  answers : ∀ owner repo branch graph,
    (s.store.get s.now owner repo branch).1 = some graph ↔
      ∃ requested moment,
        latest? h (keyOf owner repo) = some (.inserted graph requested moment) ∧
        s.now < moment + settings.ttlSecs * 1000 ∧ Serves graph requested branch
  /-- A request that may build is answered alike, and builds only where there is no such graph. -/
  answersElse : ∀ owner repo branch build took,
    s.store.stopsElse s.now owner repo branch build took = false →
    (s.store.getElse s.now owner repo branch build took).1 =
      ((s.store.get s.now owner repo branch).1.map Except.ok).getD (build ())
  /-- An insertion is stopped where the time of its graph would not be over before the end of the
  clock, and only there. -/
  stopsInsert : ∀ graph requested, s.stopped (.insert graph requested) = true ↔
    clockEnd ≤ s.now + settings.ttlSecs * 1000
  /-- So is, at its end, a request that builds; and no other operation. -/
  stops : ∀ op, s.stopped op = true → clockEnd ≤ s.now + s.lapse op + settings.ttlSecs * 1000
  counted : s.store.hits + s.store.misses = lookups
  evictions : s.store.evictions = h.countP Event.isEviction

theorem Remembers.faithful {settings : CacheSettings} {s : Timed} {h : List Event} {lookups : Nat}
    (known : Remembers settings s.now s.store h lookups) : Faithful settings s h lookups where
  bounded := known.sound.bounded.trans_eq known.capacity
  distinct := known.sound.distinct
  own := known.sound.own
  room := known.sound.makesRoom s.now
  answers := by
    intro owner repo branch graph
    rw [get_eq_some_iff known.sound.distinct, ← known.ttl]
    constructor
    · rintro ⟨e, listed, live, answers, rfl⟩
      obtain ⟨moment, last, expires⟩ := (known.agrees _ e live).mp listed
      refine ⟨e.requestedBranch, moment, last, ?_, (answersFor_iff e branch).mp answers⟩
      rw [← expires]
      exact of_decide_eq_true live
    · rintro ⟨requested, moment, last, young, serves⟩
      have live : (StoredGraph.mk graph requested (moment + s.store.ttl)).isLive s.now = true :=
        decide_eq_true young
      exact ⟨_, (known.agrees _ _ live).mpr ⟨moment, last, rfl⟩, live,
        (answersFor_iff _ branch).mpr serves, rfl⟩
  answersElse := by
    intro owner repo branch build took _
    cases found : (s.store.get s.now owner repo branch).1 with
    | some graph => rw [getElse_of_some found, Option.map_some, Option.getD_some]
    | none =>
      rw [getElse_of_none found, Option.map_none, Option.getD_none]
      cases build () <;> rfl
  stopsInsert graph requested := by
    rw [← known.ttl]
    exact stops_iff
  stops op stopped := by
    rw [← known.ttl]
    exact known.sound.le_of_stopped stopped
  counted := known.counted
  evictions := known.evictions

/-- A cache is faithful after every run, whenever it starts. -/
theorem run_faithful (settings : CacheSettings) (start : Nat) (ops : List Operation) :
    Faithful settings ((Timed.mk start (empty settings)).run ops)
      ((Timed.mk start (empty settings)).history ops) (ops.countP Operation.looksUp) := by
  have known := (remembers_empty settings start).run (s := ⟨start, empty settings⟩) ops
  rw [List.nil_append, Nat.zero_add] at known
  exact known.faithful

/-- A graph that would be live for 2 ^ 63 - 1 seconds is not kept, though no time goes by until it is
asked for. -/
theorem insert_beyondClock :
    let graph : RepoGraph := ⟨"o", "r", "main", [], [], [], []⟩
    let s := Timed.mk 1000 (empty ⟨9223372036854775807, 20⟩)
    s.stopped (.insert graph none) = true ∧
      ((s.perform (.insert graph none)).store.get 1000 "o" "r" none).1 = none := by
  intro graph s
  have unreached : s.store.expiry? s.now = none := by decide
  constructor
  · rw [Timed.stopped, stops, unreached]
    rfl
  · rw [Timed.perform, Timed.storeAfter, insert_of_unreached unreached]
    rfl

/-- Of two entries the one that expires first makes room for a third one. -/
example :
    let built (name : String) : RepoGraph := ⟨"o", name, "main", [], [], [], []⟩
    let s := (Timed.mk 0 (empty ⟨1800, 2⟩)).run [.insert (built "first") none, .wait 1000,
      .insert (built "second") none, .wait 1000, .insert (built "third") none]
    s.store.entries.map Prod.fst = ["o/second", "o/third"] ∧ s.store.evictions = 1 := by
  cbv

end CodeAtlas.GraphStore
